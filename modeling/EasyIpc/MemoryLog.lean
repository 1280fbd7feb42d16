import EasyIpc.Log
import Mathlib.Data.List.DropRight

/-!
# The log in memory

`ipcd_debug_log_memory_push` and `ipcd_debug_log_memory_pull` of `easyipc_debug.c`, with the
counter that stands beside the list and the cursor of the reader.

* `MemoryLog.push_run` — the state after any pushes: the last `debug_log_size + 1` lines.
* `MemoryLog.drain_eq` — what a reader gets that pulls until the result is 0.
* `drains_last` — the log holds one line more than its size says, so it is the log of the last `n`
  lines only until more than `n` have been pushed.
-/

namespace EasyIpc

/-- `IPC_CMDLINE_MAX_SIZE`. -/
def ipcCmdlineMaxSize : ℕ := 4096

/-- `log_list`, `log_size` and the static `index` of `ipcd_debug_log_memory_pull`. -/
structure MemoryLog where
  logList : List CStr := []
  logSize : ℤ := 0
  index : ℕ := 0
  deriving DecidableEq, Repr

namespace MemoryLog

/-- `ipcd_debug_log_memory_push`: the copy of `str` is made before the lock's list is touched. -/
def push (debugLogSize : ℤ) (str : CStr) (maxsize : ℕ) (log : MemoryLog) : MemoryLog :=
  let mallocSize := if str.length + 1 > maxsize then maxsize else str.length + 1
  let tmpm := snprintf mallocSize str
  let log := if log.logSize > debugLogSize then
      { log with logList := log.logList.eraseIdx 0, logSize := log.logSize - 1 }
    else log
  { log with logList := log.logList ++ [tmpm], logSize := log.logSize + 1 }

/-- `ipcd_debug_log_memory_pull`: `none` is the result 0, and otherwise `str` holds the line. -/
def pull (maxsize : ℕ) (log : MemoryLog) : Option CStr × MemoryLog :=
  if log.index < log.logSize then
    match log.logList[log.index]? with
    | none => (none, { log with index := 0 })
    | some data => (some (snprintf maxsize data), { log with index := log.index + 1 })
  else (none, { log with index := 0 })

/-- A reader that pulls until the result is 0, as `ipcd_misc_cat` does: the lines, and the log
afterwards. -/
def drain (maxsize : ℕ) : ℕ → MemoryLog → Option (List CStr × MemoryLog)
  | 0, _ => none
  | fuel + 1, log =>
      match log.pull maxsize with
      | (none, log') => some ([], log')
      | (some str, log') => (drain maxsize fuel log').map fun r => (str :: r.1, r.2)

/-- The log after the pushes of some lines, from the start of the daemon. -/
def pushAll (debugLogSize : ℤ) (lines : List CStr) : MemoryLog :=
  lines.foldl (fun log str => log.push debugLogSize str ipcDebugPrintMaxSize) {}

/-- The counter agrees with the list. -/
def Counted (log : MemoryLog) : Prop := log.logSize = log.logList.length

variable {log : MemoryLog} {debugLogSize : ℤ} {str : CStr} {maxsize fuel n : ℕ} {lines : List CStr}

/-! ## Pushing -/

/-- Where the counter agrees, the list changes as `ipcd_log_save_and_print` has it. -/
theorem logList_push (h : log.Counted) : (log.push debugLogSize str maxsize).logList =
    ipcdDebugLogMemoryPush debugLogSize str maxsize log.logList := by
  unfold Counted at h
  unfold push ipcdDebugLogMemoryPush
  simp only [h]
  by_cases hfull : (log.logList.length : ℤ) > debugLogSize
  · simp only [if_pos hfull]
  · simp only [if_neg hfull]

theorem push_of_lt (h : str.length < maxsize) : log.push debugLogSize str maxsize =
    if log.logSize > debugLogSize then
      ⟨log.logList.eraseIdx 0 ++ [str], log.logSize - 1 + 1, log.index⟩
    else ⟨log.logList ++ [str], log.logSize + 1, log.index⟩ := by
  have htmpm : snprintf (if str.length + 1 > maxsize then maxsize else str.length + 1) str = str := by
    apply snprintf_of_lt
    split <;> omega
  unfold push
  simp only [htmpm]
  split <;> rfl

theorem pushAll_append_singleton : pushAll debugLogSize (lines ++ [str]) =
    (pushAll debugLogSize lines).push debugLogSize str ipcDebugPrintMaxSize := by
  rw [pushAll, List.foldl_append]
  rfl

/-- **The log after any pushes.**  A line is dropped when the counter is above the size already, so
one line more than the size is kept. -/
theorem push_run (n : ℕ) (hlen : ∀ str ∈ lines, str.length < ipcCmdlineMaxSize) :
    (pushAll n lines).logList = lines.rtake (n + 1) ∧ (pushAll n lines).Counted ∧
      (pushAll n lines).index = 0 := by
  induction lines using List.reverseRecOn with
  | nil => exact ⟨by simp [pushAll], rfl, rfl⟩
  | append_singleton lines str ih =>
    obtain ⟨hlist, hcount, hindex⟩ := ih fun s hs => hlen s (List.mem_append_left _ hs)
    have hstr : str.length < ipcCmdlineMaxSize := hlen str (by simp)
    have hmax : str.length < ipcDebugPrintMaxSize := Nat.lt_trans hstr (by decide)
    have hsize : (pushAll n lines).logSize = (lines.rtake (n + 1)).length := by rw [← hlist]; exact hcount
    have hrtake : (lines.rtake (n + 1)).length = min (n + 1) lines.length := by
      rw [List.rtake, List.length_drop]
      omega
    rw [pushAll_append_singleton, push_of_lt hmax, List.rtake_concat_succ, hlist, hindex, hsize]
    split
    · -- the list is full, and its first line is the one before the last `n`
      have hfirst : (lines.rtake (n + 1)).eraseIdx 0 = lines.rtake n := by
        rw [List.eraseIdx_zero, ← List.drop_one, List.rtake, List.rtake, List.drop_drop]
        congr 1
        omega
      rw [hfirst]
      refine ⟨rfl, ?_, rfl⟩
      simp only [Counted, List.length_append, List.length_singleton, ← hfirst, List.length_eraseIdx]
      split <;> omega
    · have hall : lines.rtake (n + 1) = lines.rtake n := by
        rw [List.rtake, List.rtake]
        congr 1
        omega
      rw [← hall]
      refine ⟨rfl, ?_, rfl⟩
      simp only [Counted, List.length_append, List.length_singleton]
      omega

/-! ## Pulling -/

/-- **What a reader gets.**  From the cursor on, one line per call, and the call after the last one
ends the reading and puts the cursor back. -/
theorem drain_eq (h : log.Counted) (fuel : ℕ) : log.drain maxsize fuel =
    if log.logList.length - log.index < fuel then
      some ((log.logList.drop log.index).map (snprintf maxsize), { log with index := 0 })
    else none := by
  unfold Counted at h
  induction fuel generalizing log with
  | zero => rw [drain, if_neg (by omega)]
  | succ fuel ih =>
    by_cases hindex : log.index < log.logList.length
    · have hpull : log.pull maxsize = (some (snprintf maxsize log.logList[log.index]),
          { log with index := log.index + 1 }) := by
        unfold pull
        rw [if_pos (by omega), List.getElem?_eq_getElem hindex]
      have hnext := @ih { log with index := log.index + 1 } h
      simp only [drain, hpull, hnext]
      by_cases hfuel : log.logList.length - (log.index + 1) < fuel
      · rw [if_pos hfuel, if_pos (by omega), List.drop_eq_getElem_cons hindex]
        rfl
      · rw [if_neg hfuel, if_neg (by omega)]
        rfl
    · have hpull : log.pull maxsize = (none, { log with index := 0 }) := by
        unfold pull
        rw [if_neg (by omega)]
      simp only [drain, hpull]
      rw [if_pos (by omega), List.drop_of_length_le (by omega), List.map_nil]

/-- Two readings in a row, each given enough calls, yield the last `min k keep` of the `k` lines
pushed into a log of the size `n`. -/
def DrainsLast (n keep : ℕ) (lines : List CStr) : Prop :=
  ∃ log₁ log₂,
    (∃ fuel, (pushAll n lines).drain ipcCmdlineMaxSize fuel =
      some (lines.rtake (min lines.length keep), log₁)) ∧
    (∃ fuel, log₁.drain ipcCmdlineMaxSize fuel =
      some (lines.rtake (min lines.length keep), log₂))

/-- A reading of the log after any pushes, with the calls that it is given. -/
theorem drain_pushAll (n fuel : ℕ) (hlen : ∀ str ∈ lines, str.length < ipcCmdlineMaxSize) :
    (pushAll n lines).drain ipcCmdlineMaxSize fuel =
      if (lines.rtake (n + 1)).length < fuel then some (lines.rtake (n + 1), pushAll n lines)
      else none := by
  obtain ⟨hlist, hcount, hindex⟩ := push_run n hlen
  have hcopy : (lines.rtake (n + 1)).map (snprintf ipcCmdlineMaxSize) = lines.rtake (n + 1) := by
    refine (List.map_congr_left fun str hstr => ?_).trans (List.map_id _)
    exact snprintf_of_lt (hlen str (List.mem_of_mem_drop hstr))
  have hback : { pushAll n lines with index := 0 } = pushAll n lines := by
    rw [← hindex]
  rw [drain_eq hcount, hback, hlist, hindex, Nat.sub_zero, List.drop_zero, hcopy]

/-- One line more than the size is read, twice. -/
theorem drainsLast_succ (n : ℕ) (hlen : ∀ str ∈ lines, str.length < ipcCmdlineMaxSize) :
    DrainsLast n (n + 1) lines := by
  have hmin : lines.rtake (min lines.length (n + 1)) = lines.rtake (n + 1) := by
    rw [List.rtake, List.rtake]
    congr 1
    omega
  have hdrain := drain_pushAll n ((lines.rtake (n + 1)).length + 1) hlen
  rw [if_pos (Nat.lt_succ_self _), ← hmin] at hdrain
  exact ⟨pushAll n lines, pushAll n lines, ⟨_, hdrain⟩, ⟨_, hdrain⟩⟩

theorem drainsLast_iff (n : ℕ) (hlen : ∀ str ∈ lines, str.length < ipcCmdlineMaxSize) :
    DrainsLast n n lines ↔ lines.length ≤ n := by
  refine ⟨?many, ?few⟩
  case many =>
    rintro ⟨log₁, -, ⟨fuel, hread⟩, -⟩
    rw [drain_pushAll n fuel hlen] at hread
    split at hread
    · have hlines := congrArg (fun r => r.1.length) (Option.some.inj hread)
      simp only [List.rtake, List.length_drop] at hlines
      omega
    · cases hread
  case few =>
    intro hfew
    have h := drainsLast_succ n hlen
    unfold DrainsLast at h ⊢
    rwa [Nat.min_eq_left (by omega)] at h ⊢

/-- **The log in memory keeps one line more than its size.**  Reading it until the result is 0
yields, twice in a row, the last `min k (n + 1)` of the `k` lines pushed; they are the last
`min k n` exactly if no more than `n` lines have been pushed. -/
theorem drains_last (n : ℕ) (hlen : ∀ str ∈ lines, str.length < ipcCmdlineMaxSize) :
    (DrainsLast n n lines ↔ lines.length ≤ n) ∧ DrainsLast n (n + 1) lines :=
  ⟨drainsLast_iff n hlen, drainsLast_succ n hlen⟩

open Printf in
/-- A log of two lines that has got one. -/
theorem drains_last_one :
    (DrainsLast 2 2 [bytes "a"] ↔ [bytes "a"].length ≤ 2) ∧ DrainsLast 2 (2 + 1) [bytes "a"] :=
  drains_last 2 (by decide)

open Printf in
/-- A log of one line that has got two yields both. -/
theorem drains_both :
    (pushAll 1 [bytes "a", bytes "b"]).drain ipcCmdlineMaxSize 3 =
      some ([bytes "a", bytes "b"], ⟨[bytes "a", bytes "b"], 2, 0⟩) ∧
    ¬ DrainsLast 1 1 [bytes "a", bytes "b"] := by
  refine ⟨by decide, fun h => ?_⟩
  have hfew := (drainsLast_iff 1 (by decide)).1 h
  exact absurd hfew (by decide)

end MemoryLog

end EasyIpc
