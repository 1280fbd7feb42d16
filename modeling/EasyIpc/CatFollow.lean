import EasyIpc.Cat
import EasyIpc.Lib.Transition

/-!
# Following the log

`ipc_cat_deamon` of `easyipc_console.c`, which `eipccat -d` runs in the program of the user: it opens the log
file itself, goes to an offset and reads lines for ever; where `fgets` gives `NULL` it sleeps and tries
again.  The daemon goes on writing to the file meanwhile.  In C the end-of-file indicator of a stream stays
set until it is cleared, and `fgets` reads nothing while it is set; `ipc_cat_deamon` never clears it.

* `ipcCatDeamonLine` — the body of the loop, which tests the keyword before the name.
* `Follow`, `followLts` — the log, the stream and what has been printed.
* `follow_agrees` — what is printed is what `ipcd_misc_cat` prints for the part that has been read, and once
  the end of the log has been met nothing that is logged later is shown.
-/

namespace EasyIpc

open Printf Stdio Transition

/-- The body of the loop of `ipc_cat_deamon`, for the line in `readline`; its arguments are the fields that
`main` has filled. -/
def ipcCatDeamonLine (icpp : CliPrintPacket) (readline : List UInt8) (lastColor : UInt8) :
    Option CStr × UInt8 :=
  let tmptype := cstr (readline.take 1)
  let tmplevel := cstr ((readline.drop 2).take 1)
  let shown := fun letter => catColour letter ++ cstr readline ++ colourNone
  if icpp.keyWord.length > 0 ∧ strstri (cstr (readline.drop 33)) icpp.keyWord = none then
    (none, lastColor)
  else if icpp.printfLogPname.length > 0 ∧ icpp.printfLogPname ≠ tempStrPname readline then
    (none, lastColor)
  else if (cstr readline).length ≤ 48 then (some (shown lastColor), lastColor)
  else if !strstr (bytes "USP") tmptype || !strstr (bytes "EWNI") tmplevel then
    (some (shown lastColor), lastColor)
  else if strstr icpp.printfLogTypeFlag tmptype && strstr icpp.printfLogLevelFlag tmplevel then
    (some (shown (readline.getD 2 0)), readline.getD 2 0)
  else (none, lastColor)

/-- The two loops treat a line alike. -/
theorem ipcCatDeamonLine_eq (icpp : CliPrintPacket) (readline : List UInt8) (lastColor : UInt8) :
    ipcCatDeamonLine icpp readline lastColor = catLine icpp [] readline lastColor := by
  unfold ipcCatDeamonLine catLine
  simp only [List.append_nil]
  -- the order of the first two tests does not matter: both hide the line
  by_cases hname : icpp.printfLogPname.length > 0 ∧ icpp.printfLogPname ≠ tempStrPname readline
  · rw [if_pos hname, if_pos hname, ite_self]
  · rw [if_neg hname, if_neg hname]

/-! ## The loop -/

/-- The log file, the place of the stream in it, its end-of-file indicator, the variables of the loop, and
what has been printed for each line. -/
structure Follow where
  file : List UInt8
  pos : ℕ
  eof : Bool := false
  cat : CatState
  out : List (Option CStr) := []
  deriving DecidableEq, Repr

/-- Where `fseek` goes; it fails before the start of the file. -/
def followStart (offset : ℤ) (file : List UInt8) : ℕ :=
  if offset > 0 then offset.toNat
  else if offset < 0 ∧ 0 ≤ (file.length : ℤ) + offset then ((file.length : ℤ) + offset).toNat
  else 0

/-- The steps. -/
inductive FollowAct where
  /-- The daemon writes to the log. -/
  | logs (text : List UInt8)
  /-- A round of the loop. -/
  | round
  deriving DecidableEq, Repr

namespace Follow

variable (icpp : CliPrintPacket) (s : Follow)

/-- A round of the loop. -/
def round : Follow :=
  if s.eof then s
  else
    let line := (fgets ipcCmdlineMaxSize (s.file.drop s.pos)).1
    let eof := metEnd (ipcCmdlineMaxSize - 1) line
    if line = [] then { s with eof }
    else
      let readline := load line s.cat.readline
      let (out, lastColor) := ipcCatDeamonLine icpp readline s.cat.lastColor
      { s with pos := s.pos + line.length, eof, cat := ⟨readline, lastColor⟩, out := s.out ++ [out] }

/-- One step. -/
def step : FollowAct → Option Follow
  | .logs text => some { s with file := s.file ++ text }
  | .round => some (s.round icpp)

end Follow

/-- `ipc_cat_deamon` with the log as it is at first. -/
def followLts (icpp : CliPrintPacket) (offset : ℤ) (file : List UInt8) (s : CatState) :
    Lts Follow FollowAct where
  init := { file, pos := followStart offset file, cat := s }
  step := Follow.step icpp

variable {icpp : CliPrintPacket} {offset : ℤ} {file line : List UInt8} {start : ℕ} {c : CatState}
  {s s' : Follow}

/-- What has been read of the log. -/
def Follow.read (start : ℕ) (s : Follow) : List UInt8 := (s.file.drop start).take (s.pos - start)

/-- `readline` and `last_color` after lines. -/
def catAfter (icpp : CliPrintPacket) (lines : List (List UInt8)) (s : CatState) : CatState :=
  lines.foldl (fun s line =>
    ⟨load line s.readline, (catLine icpp [] (load line s.readline) s.lastColor).2⟩) s

theorem catLoop_snoc (lines : List (List UInt8)) (line : List UInt8) (s : CatState) :
    catLoop icpp [] (lines ++ [line]) s = catLoop icpp [] lines s ++
      [(catLine icpp [] (load line (catAfter icpp lines s).readline) (catAfter icpp lines s).lastColor).1] := by
  induction lines generalizing s with
  | nil => rfl
  | cons first lines ih =>
    rw [List.cons_append, catLoop, catLoop, ih]
    rfl

theorem catAfter_snoc (lines : List (List UInt8)) (line : List UInt8) (s : CatState) :
    catAfter icpp (lines ++ [line]) s = ⟨load line (catAfter icpp lines s).readline,
      (catLine icpp [] (load line (catAfter icpp lines s).readline) (catAfter icpp lines s).lastColor).2⟩ := by
  rw [catAfter, List.foldl_append]
  rfl

/-! ## A round -/

/-- What is left to be read begins with a line. -/
theorem exists_line (h : file ≠ []) : ∃ line rest, line ≠ [] ∧ line ++ rest = file ∧
    fgets ipcCmdlineMaxSize file = (line, rest) :=
  ⟨_, _, takeLine_ne_nil (by decide) h, takeLine_append _ file, rfl⟩

/-- A round that reads a line. -/
theorem round_of_line {rest : List UInt8} (heof : s.eof = false) (hne : line ≠ [])
    (hfgets : fgets ipcCmdlineMaxSize (s.file.drop s.pos) = (line, rest)) : s.round icpp = { s with
      pos := s.pos + line.length
      eof := metEnd (ipcCmdlineMaxSize - 1) line
      cat := ⟨load line s.cat.readline, (catLine icpp [] (load line s.cat.readline) s.cat.lastColor).2⟩
      out := s.out ++ [(catLine icpp [] (load line s.cat.readline) s.cat.lastColor).1] } := by
  rw [Follow.round, if_neg (by simp [heof]), hfgets]
  simp only [if_neg hne, ipcCatDeamonLine_eq]

/-- A round at the end of the log. -/
theorem round_at_end (heof : s.eof = false) (hdrop : s.file.drop s.pos = []) :
    s.round icpp = { s with eof := true } := by
  have hfgets : fgets ipcCmdlineMaxSize [] = ([], []) := takeLine_nil _
  rw [Follow.round, if_neg (by simp [heof]), hdrop, hfgets]
  rfl

/-- A round with the end-of-file indicator set. -/
theorem round_of_eof (heof : s.eof = true) : s.round icpp = s := by rw [Follow.round, if_pos heof]

/-! ## What has been printed -/

/-- What has been printed, and the variables, come from the chunks of what has been read; where the end has
not been met, what is read next has chunks of its own. -/
structure FollowInv (icpp : CliPrintPacket) (start : ℕ) (c : CatState) (s : Follow) (text : List UInt8) :
    Prop where
  place : s.file.drop start = text ++ s.file.drop s.pos
  pos : s.pos = start + text.length
  out : s.out = catLoop icpp [] (chunks ipcCmdlineMaxSize text) c
  cat : s.cat = catAfter icpp (chunks ipcCmdlineMaxSize text) c
  whole : s.eof = false → ∀ rest, chunks ipcCmdlineMaxSize (text ++ rest) =
    chunks ipcCmdlineMaxSize text ++ chunks ipcCmdlineMaxSize rest

theorem FollowInv.read_eq {text : List UInt8} (h : FollowInv icpp start c s text) : s.read start = text := by
  rw [Follow.read, h.place, h.pos, Nat.add_sub_cancel_left, List.take_left]

theorem followInv_init (icpp : CliPrintPacket) (offset : ℤ) (file : List UInt8) (c : CatState) :
    FollowInv icpp (followStart offset file) c (followLts icpp offset file c).init [] :=
  ⟨rfl, rfl, rfl, rfl, fun _ _ => rfl⟩

/-- The log grows behind what has been read. -/
theorem FollowInv.logs {text : List UInt8} (h : FollowInv icpp start c s text) (more : List UInt8) :
    FollowInv icpp start c { s with file := s.file ++ more } text := by
  refine { h with place := ?_ }
  by_cases htext : text = []
  · have hpos : s.pos = start := by rw [h.pos, htext]; rfl
    rw [htext, hpos, List.nil_append]
  · have hlen := congrArg List.length h.place
    rw [List.length_append, List.length_drop, List.length_drop] at hlen
    have hpos := List.length_pos_iff.2 htext
    have hle := h.pos
    show (s.file ++ more).drop start = text ++ (s.file ++ more).drop s.pos
    rw [List.drop_append_of_le_length (by omega), List.drop_append_of_le_length (by omega), h.place,
      List.append_assoc]

/-- A round. -/
theorem FollowInv.round {text : List UInt8} (h : FollowInv icpp start c s text) :
    ∃ text', FollowInv icpp start c (s.round icpp) text' := by
  cases heof : s.eof with
  | true =>
    rw [round_of_eof heof]
    exact ⟨text, h⟩
  | false =>
    have hn : 2 ≤ ipcCmdlineMaxSize := by decide
    by_cases hdrop : s.file.drop s.pos = []
    · rw [round_at_end heof hdrop]
      exact ⟨text, h.place, h.pos, h.out, h.cat, fun hno => by cases hno⟩
    · obtain ⟨line, next, hne, hsplit, hfgets⟩ := exists_line hdrop
      have hone : chunks ipcCmdlineMaxSize line = [line] := by
        have hchunk := chunks_fgets hn hdrop
        rwa [hfgets] at hchunk
      have hchunks : chunks ipcCmdlineMaxSize (text ++ line) =
          chunks ipcCmdlineMaxSize text ++ [line] := by rw [h.whole heof, hone]
      rw [round_of_line heof hne hfgets]
      refine ⟨text ++ line, ?_, ?_, ?_, ?_, fun hmet rest => ?_⟩
      · show s.file.drop start = text ++ line ++ s.file.drop (s.pos + line.length)
        rw [← List.drop_drop, ← hsplit, List.drop_left, List.append_assoc, hsplit, h.place]
      · show s.pos + line.length = start + (text ++ line).length
        rw [List.length_append, h.pos, Nat.add_assoc]
      · rw [hchunks, catLoop_snoc, ← h.out, ← h.cat]
      · rw [hchunks, catAfter_snoc, ← h.cat]
      · have hnext : chunks ipcCmdlineMaxSize (line ++ rest) = line :: chunks ipcCmdlineMaxSize rest := by
          have hcomplete := chunks_complete hn hdrop (by rw [hfgets]; exact hmet) rest
          rwa [hfgets] at hcomplete
        rw [List.append_assoc, h.whole heof, hnext, hchunks, List.append_assoc]
        rfl

theorem followInv_reach (h : Reach (followLts icpp offset file c) Free s) :
    ∃ text, FollowInv icpp (followStart offset file) c s text := by
  refine h.invariant (I := fun s => ∃ text, FollowInv icpp (followStart offset file) c s text)
    ⟨[], followInv_init icpp offset file c⟩ ?_
  rintro s act s' _ ⟨text, hI⟩ hst _
  cases act with
  | logs more =>
    cases hst
    exact ⟨text, hI.logs more⟩
  | round =>
    cases hst
    exact hI.round

/-! ## The end of the log -/

/-- Once the end has been met, nothing is printed and nothing is read any more. -/
theorem run_of_eof {acts : List FollowAct} (heof : s.eof = true)
    (hrun : (followLts icpp offset file c).run s acts = some s') :
    s'.eof = true ∧ s'.out = s.out ∧ s'.pos = s.pos := by
  induction acts generalizing s with
  | nil =>
    cases hrun
    exact ⟨heof, rfl, rfl⟩
  | cons act acts ih =>
    obtain ⟨t, hst, hrun⟩ := Lts.run_cons hrun
    cases act with
    | logs more =>
      cases hst
      have hrest := @ih { s with file := s.file ++ more } heof hrun
      exact hrest
    | round =>
      cases hst
      rw [round_of_eof heof] at hrun
      exact ih heof hrun

/-- The rounds meet the end, where nothing is logged meanwhile. -/
theorem rounds_meet_end {k : ℕ} (heof : s.eof = false) (hk : (s.file.drop s.pos).length < k) :
    ∃ s', (followLts icpp offset file c).run s (List.replicate k .round) = some s' ∧ s'.eof = true ∧
      s'.file = s.file ∧ s'.file.drop s'.pos = [] := by
  have hstill : ∀ (k : ℕ) (s : Follow), s.eof = true →
      (followLts icpp offset file c).run s (List.replicate k .round) = some s := by
    intro k s heof
    induction k with
    | zero => rfl
    | succ k ih =>
      show (some (s.round icpp)).bind _ = _
      rw [round_of_eof heof]
      exact ih
  induction k generalizing s with
  | zero => omega
  | succ k ih =>
    show ∃ s', (some (s.round icpp)).bind _ = some s' ∧ _
    rw [Option.bind_some]
    by_cases hdrop : s.file.drop s.pos = []
    · rw [round_at_end heof hdrop]
      exact ⟨_, hstill k _ rfl, rfl, rfl, hdrop⟩
    · obtain ⟨line, next, hne, hsplit, hfgets⟩ := exists_line hdrop
      have hpos := List.length_pos_iff.2 hne
      have hleft : s.file.drop (s.pos + line.length) = next := by
        rw [← List.drop_drop, ← hsplit, List.drop_left]
      rw [round_of_line heof hne hfgets]
      cases hmet : metEnd (ipcCmdlineMaxSize - 1) line with
      | true =>
        have hrest : (fgets ipcCmdlineMaxSize (s.file.drop s.pos)).2 = [] :=
          takeLine_metEnd (show metEnd _ (fgets ipcCmdlineMaxSize _).1 = true by rw [hfgets]; exact hmet)
        rw [hfgets] at hrest
        exact ⟨_, hstill k _ rfl, rfl, rfl, hleft.trans hrest⟩
      | false =>
        refine ih rfl ?_
        show (s.file.drop (s.pos + line.length)).length < k
        rw [← hsplit, List.length_append] at hk
        rw [hleft]
        omega

/-- **`eipccat -d` shows what `eipccat` shows, and no more than that.**  In every run of the daemon, which
writes to the log, and of the loop, what has been printed for the lines is what `ipcd_misc_cat` prints for
the part of the log that has been read.  If nothing is logged for a while, the loop comes to the end of the
log; and once it has met the end, nothing that is logged later is ever shown. -/
theorem follow_agrees (h : Reach (followLts icpp offset file c) Free s) (log : MemoryLog) :
    s.out = (ipcdMiscCat icpp 0 (some (s.read (followStart offset file))) log c).lines ∧
    (s.eof = false → ∀ k, (s.file.drop s.pos).length < k → ∃ s',
      (followLts icpp offset file c).run s (List.replicate k .round) = some s' ∧ s'.eof = true ∧
        s'.read (followStart offset file) = s.file.drop (followStart offset file)) ∧
    (s.eof = true → ∀ acts s', (followLts icpp offset file c).run s acts = some s' → s'.out = s.out) := by
  obtain ⟨text, hI⟩ := followInv_reach h
  refine ⟨?_, fun heof k hk => ?_, fun heof acts s' hrun => (run_of_eof heof hrun).2.1⟩
  · rw [ipcdMiscCat_file, hI.read_eq]
    exact hI.out
  · obtain ⟨s', hrun, heof', hfile, hdrop⟩ :=
      @rounds_meet_end icpp offset file c s k heof hk
    have h' : Reach (followLts icpp offset file c) Free s' :=
      (Reach.run (P := fun _ => True) (h.mono fun _ _ _ _ => trivial) (fun _ _ => trivial) hrun).free
    obtain ⟨text', hI'⟩ := followInv_reach h'
    refine ⟨s', hrun, heof', ?_⟩
    rw [hI'.read_eq, ← hfile, hI'.place, hdrop, List.append_nil]

/-- No filter, and the flags of `main`. -/
def plainPacket : CliPrintPacket := ⟨bytes "EWNID", bytes "UPS", [], []⟩

/-- The loop shows a line and comes to the end of the log; then a line is logged, which it does not show. -/
theorem follow_agrees_late : ∃ s, Reach (followLts plainPacket 0 [97, 10] ⟨[], 0⟩) Free s ∧
    s.file = [97, 10, 98, 10] ∧
    s.out = (ipcdMiscCat plainPacket 0 (some [97, 10]) {} ⟨[], 0⟩).lines := by
  have hends : ((followLts plainPacket 0 [97, 10] ⟨[], 0⟩).run
      (followLts plainPacket 0 [97, 10] ⟨[], 0⟩).init [.round, .round, .logs [98, 10], .round]).any
      (fun s => decide (s.file = [97, 10, 98, 10] ∧ s.read (followStart 0 [97, 10]) = [97, 10])) = true := by
    decide +kernel
  obtain ⟨s, hrun, hback⟩ := (Option.any_eq_true _ _).1 hends
  obtain ⟨hfile, hread⟩ := of_decide_eq_true hback
  have hreach := Reach.of_run hrun
  exact ⟨s, hreach, hfile, hread ▸ (follow_agrees hreach {}).1⟩

end EasyIpc
