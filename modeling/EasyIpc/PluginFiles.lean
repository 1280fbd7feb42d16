import EasyIpc.CjsonPrint
import EasyIpc.PluginHistory

/-!
# From the text of a plugin file to the tables, and back to the console

The loaders read the trees that `cJSON_Parse` makes of the texts of files, and `ipcd_plugin_view` prints
these trees.

* `Texts.files` — the trees behind the paths, for the texts of the files.
* `FileAnswers`, `rules_file_loaded` — however a file of rules is laid out, the command that loads it
  adds exactly the answers that are written in it.
* `view_defined` — the tree of a loaded file is never the one that `cJSON_Print` writes outside of its
  block for.
-/

namespace EasyIpc

open Printf Scan Replay Trace Floats

variable {ν : Type} (fp : Doubles ν) (junk : ℕ → ℕ × ℕ)

/-! ## Texts -/

/-- What the files hold, by their paths. -/
abbrev Texts := CStr → Option (List UInt8)

/-- The trees of the files: a file that is empty or cannot be parsed has none. -/
def Texts.files (texts : Texts) : Files := fun path =>
  (texts path).bind fun text =>
    if text = [] then none
    else
      match cJSONParse fp junk (text ++ [0]) with
      | .done v _ => some (v.toCJson none)
      | _ => none

/-- A document is the tree of its value. -/
theorem files_document (hfp : fp.ExactInts) {texts : Texts} {path : CStr}
    {before after : Whitespace} {d : Doc} (h : texts path = some (before.bytes ++ d.render ++ after.bytes)) :
    texts.files fp junk path = some ((d.value fp).toCJson none) := by
  have hparse := cJSONParse_document fp hfp junk before after d []
  have hne : before.bytes ++ d.render ++ after.bytes ≠ [] := by
    intro hnil
    rw [hnil] at hparse
    cases hparse
  rw [Texts.files, h, Option.bind_some, if_neg hne, hparse]

/-! ## Rules -/

/-- The items of a member of an object, none where it has no such member. -/
def CJson.items (obj : CJson) (name : CStr) : List CJson :=
  ((cJSONGetObjectItem obj name).map CJson.child).getD []

/-- The object is one of rules. -/
def IsM2m (obj : CJson) : Prop :=
  (cJSONGetObjectItem obj (bytes "type")).bind CJson.valuestring = some (bytes "m2m")

/-- What an object of rules answers to a name that it watches: the first members of its items, by the
four kinds. -/
def AnswersIn (obj : CJson) (monitor : CStr) (u : BroadcastUnit) : Prop :=
  some monitor ∈ (obj.items (bytes "monitor")).map CJson.valuestring ∧
    ∃ key, some (key, u.msg) ∈ (obj.items (bytes "broadcast")).map CJson.firstMember ∧
      kindOf key = some u.type

/-- The names that the object watches and the texts of its items are strings that fit into their fields,
and the items have the four kinds. -/
structure RuleObject (obj : CJson) : Prop where
  monitors : ∀ node ∈ obj.items (bytes "monitor"),
    ∃ name, node.valuestring = some name ∧ name.length < ipcMsgMaxSize
  broadcasts : ∀ node ∈ obj.items (bytes "broadcast"),
    ∃ item, node.firstMember = some item ∧ item.2.length < ipcPluginMsgMaxSize ∧ kindOf item.1 ≠ none

/-- An object in the list of a file that has no masks: its type, if it has one, is a string, and what it
has for rules fits. -/
structure Loadable (obj : CJson) : Prop where
  typed : ∀ typeNameObj, cJSONGetObjectItem obj (bytes "type") = some typeNameObj →
    ∃ typeName, typeNameObj.valuestring = some typeName ∧ typeName ≠ bytes "mask_msg"
  rules : IsM2m obj → RuleObject obj

/-- A file of rules. -/
structure RulesFile (root : CJson) : Prop where
  list : (cJSONGetObjectItem root (bytes "list")).isSome = true
  loadable : ∀ obj ∈ root.items (bytes "list"), Loadable obj

/-- The answers that are written in a file. -/
def FileAnswers (root : CJson) (monitor : CStr) (u : BroadcastUnit) : Prop :=
  ∃ obj ∈ root.items (bytes "list"), IsM2m obj ∧ AnswersIn obj monitor u

section Objects

variable {obj root : CJson}

theorem CJson.items_eq {name : CStr} {item : CJson} (h : cJSONGetObjectItem obj name = some item) :
    obj.items name = item.child := by
  rw [items, h, Option.map_some, Option.getD_some]

theorem CJson.exists_of_items_ne {name : CStr} (h : obj.items name ≠ []) :
    ∃ item, cJSONGetObjectItem obj name = some item ∧ obj.items name = item.child := by
  cases hitem : cJSONGetObjectItem obj name with
  | none => exact absurd (by rw [items, hitem]; rfl) h
  | some item => exact ⟨item, rfl, CJson.items_eq hitem⟩

/-- An object that watches nothing, or has no items, has no rules. -/
theorem m2mRules_nil (junk : ℕ → PluginBroadcatType)
    (h : obj.items (bytes "monitor") = [] ∨ obj.items (bytes "broadcast") = []) :
    m2mRules junk obj = some [] := by
  unfold m2mRules
  cases hmonitor : cJSONGetObjectItem obj (bytes "monitor") with
  | none => rfl
  | some monitorObj =>
    cases hchild : monitorObj.child with
    | nil => simp only [hchild, monitorRules]
    | cons monitor monitors =>
      have hnone : obj.items (bytes "broadcast") = [] := by
        refine h.resolve_left ?_
        rw [CJson.items_eq hmonitor, hchild]
        exact List.cons_ne_nil _ _
      simp only [hchild, monitorRules]
      cases hbroadcast : cJSONGetObjectItem obj (bytes "broadcast") with
      | none => rfl
      | some broadcastObj =>
        rw [CJson.items_eq hbroadcast] at hnone
        simp [cJSONGetArraySize, hnone]

/-- What is found for every item is found for the list of them. -/
theorem exists_map_some {α β : Type} {f : α → Option β} {P : β → Prop} {l : List α}
    (h : ∀ a ∈ l, ∃ b, f a = some b ∧ P b) :
    ∃ bs : List β, l.map f = bs.map some ∧ ∀ b ∈ bs, P b := by
  induction l with
  | nil => exact ⟨[], rfl, by simp⟩
  | cons a l ih =>
    obtain ⟨⟨b, hb, hP⟩, hl⟩ := List.forall_mem_cons.1 h
    obtain ⟨bs, hbs, hall⟩ := ih hl
    exact ⟨b :: bs, by rw [List.map_cons, List.map_cons, hb, hbs], List.forall_mem_cons.2 ⟨hP, hall⟩⟩

/-- The rules that the loader finds in the object are its answers, whatever its variables hold. -/
theorem RuleObject.exists_rules (h : RuleObject obj) (junk : ℕ → PluginBroadcatType) :
    ∃ rules, m2mRules junk obj = some rules ∧ (∀ r ∈ rules, r.Short) ∧
      ∀ r : Rule, r ∈ rules ↔ AnswersIn obj r.monitor r.unit := by
  by_cases hnil : obj.items (bytes "monitor") = [] ∨ obj.items (bytes "broadcast") = []
  · refine ⟨[], m2mRules_nil junk hnil, by simp, fun r => ⟨by simp, ?_⟩⟩
    rintro ⟨hmonitor, key, hitem, -⟩
    rcases hnil with hnil | hnil
    · simp [hnil] at hmonitor
    · simp [hnil] at hitem
  obtain ⟨hmonitors_ne, hitems_ne⟩ := not_or.1 hnil
  obtain ⟨monitors, hmonitors, hnames⟩ := exists_map_some h.monitors
  obtain ⟨items, hitems, htexts⟩ := exists_map_some h.broadcasts
  obtain ⟨monitorObj, hmonitorObj, hmonitorItems⟩ := CJson.exists_of_items_ne hmonitors_ne
  obtain ⟨broadcastObj, hbroadcastObj, hbroadcastItems⟩ := CJson.exists_of_items_ne hitems_ne
  let o : M2mObject :=
    { obj
      monitors
      items
      monitors_ne := fun he => hmonitors_ne (by simpa [he] using hmonitors)
      items_ne := fun he => hitems_ne (by simpa [he] using hitems)
      monitor_short := hnames
      text_short := fun item hitem => (htexts item hitem).1
      monitor_eq := by rw [hmonitorObj, Option.map_some, ← hmonitorItems, hmonitors]
      broadcast_eq := by rw [hbroadcastObj, Option.map_some, ← hbroadcastItems, hitems] }
  refine ⟨o.rules junk, o.m2mRules_eq junk, fun r hr => o.short_of_mem_rules junk hr, fun r => ?_⟩
  have hkinds : ∀ item ∈ o.items, kindOf item.1 ≠ none := fun item hitem => (htexts item hitem).2
  rw [o.mem_rules_of_kinds junk hkinds, AnswersIn, hmonitors, hitems,
    List.mem_map_of_injective (Option.some_injective _)]
  simp only [List.mem_map_of_injective (Option.some_injective _)]
  rfl

/-- The effects of an object are the rules for its answers. -/
theorem Loadable.exists_rules (h : Loadable obj) (junk : ℕ → PluginBroadcatType) :
    ∃ rules : List Rule, itemEffects junk obj = some (rules.map Effect.rule) ∧ (∀ r ∈ rules, r.Short) ∧
      ∀ r : Rule, r ∈ rules ↔ IsM2m obj ∧ AnswersIn obj r.monitor r.unit := by
  by_cases hm2m : IsM2m obj
  · obtain ⟨rules, hrules, hshort, hmem⟩ := (h.rules hm2m).exists_rules junk
    refine ⟨rules, ?_, hshort, fun r => by rw [hmem, and_iff_right hm2m]⟩
    obtain ⟨typeNameObj, htype, hname⟩ := Option.bind_eq_some_iff.1 hm2m
    rw [itemEffects, htype]
    simp only [hname, Option.bind_eq_bind, Option.bind_some, if_true, hrules]
  · refine ⟨[], ?_, by simp, fun r => by simp [hm2m]⟩
    rw [itemEffects]
    cases htype : cJSONGetObjectItem obj (bytes "type") with
    | none => rfl
    | some typeNameObj =>
      obtain ⟨typeName, hname, hmask⟩ := h.typed typeNameObj htype
      have hother : typeName ≠ bytes "m2m" := by
        rintro rfl
        exact hm2m (by rw [IsM2m, htype, Option.bind_some, hname])
      simp only [hname, Option.bind_eq_bind, Option.bind_some, if_neg hother, if_neg hmask,
        List.map_nil]

/-- The effects of the objects of a file are the rules for their answers. -/
theorem exists_itemsEffects (junk : ℕ → ℕ → PluginBroadcatType) (i : ℕ) {objs : List CJson}
    (h : ∀ obj ∈ objs, Loadable obj) :
    ∃ rules : List Rule, itemsEffects junk i objs = some (rules.map Effect.rule) ∧
      (∀ r ∈ rules, r.Short) ∧
      ∀ r : Rule, r ∈ rules ↔ ∃ obj ∈ objs, IsM2m obj ∧ AnswersIn obj r.monitor r.unit := by
  induction objs generalizing i with
  | nil => exact ⟨[], rfl, by simp, by simp⟩
  | cons obj objs ih =>
    obtain ⟨hobj, hobjs⟩ := List.forall_mem_cons.1 h
    obtain ⟨rules, hrules, hshort, hmem⟩ := hobj.exists_rules (junk i)
    obtain ⟨more, hmore, hshort', hmem'⟩ := ih (i + 1) hobjs
    refine ⟨rules ++ more, ?_, ?_, fun r => ?_⟩
    · rw [itemsEffects, hrules, hmore, List.map_append]
      rfl
    · intro r hr
      rcases List.mem_append.1 hr with hr | hr
      · exact hshort r hr
      · exact hshort' r hr
    · rw [List.mem_append, hmem, hmem', List.exists_mem_cons_iff]

/-- **A file of rules is loaded as the rules for its answers**, whatever the tables. -/
theorem RulesFile.exists_rules (h : RulesFile root) (junk : ℕ → ℕ → PluginBroadcatType)
    (t : PluginTables) :
    ∃ rules : List Rule, (∀ r ∈ rules, r.Short) ∧
      (∀ r : Rule, r ∈ rules ↔ FileAnswers root r.monitor r.unit) ∧
      ipcdPluginParseRoot junk root t =
        some (true, { t with monitorMsglist := rules.foldl Rule.load t.monitorMsglist }) := by
  obtain ⟨rootList, hlist⟩ := Option.isSome_iff_exists.1 h.list
  obtain ⟨rules, hrules, hshort, hmem⟩ := exists_itemsEffects junk 0 h.loadable
  refine ⟨rules, hshort, hmem, ?_⟩
  rw [CJson.items_eq hlist] at hrules
  rw [ipcdPluginParseRoot, hlist]
  simp only [parseRootItems_eq, hrules, replay, Option.bind_some, foldlM_rule, Option.bind_eq_bind]

end Objects

/-- **However a file of rules is laid out, loading it adds exactly the answers that are written in
it.**  The command does not fail, and the file is in the list of the files afterwards. -/
theorem rules_file_loaded {texts : Texts} {cmd : Command} {filename path : CStr} {c : Console}
    {before after : Whitespace} {d : Doc} (hfp : fp.ExactInts)
    (hcmd : cmd.icp = .plugin (.file filename)) (hfiles : cmd.fs.files = texts.files fp junk)
    (hpath : cmd.fs.realpath filename = some path) (hshort : path.length < ipcLogSavePathMaxLens)
    (htext : texts path = some (before.bytes ++ d.render ++ after.bytes))
    (hrules : RulesFile ((d.value fp).toCJson none)) (hnew : c.loaded path = false)
    (htable : RuleTable (c.monitorMsglist.getD [])) :
    ∃ c', ipcctlAnalysisCore cmd c = some c' ∧ c'.loaded path = true ∧
      RuleTable (c'.monitorMsglist.getD []) ∧
      ∀ monitor u, u ∈ pairs (c'.monitorMsglist.getD []) monitor ↔
        u ∈ pairs (c.monitorMsglist.getD []) monitor ∨
          FileAnswers ((d.value fp).toCJson none) monitor u := by
  obtain ⟨rules, hrules, hmem, hparse⟩ := hrules.exists_rules (cmd.junk 0) c.plugins.toPluginTables
  have hfile : cmd.fs.files path = some ((d.value fp).toCJson none) := by
    rw [hfiles, files_document fp junk hfp htext]
  obtain ⟨s, hadd, htables, hunits⟩ : ∃ s,
      ipcdPluginMonitorAddFile cmd.fs.files (cmd.junk 0) path c.plugins = some s ∧
      s.monitorMsglist = rules.foldl Rule.load (c.monitorMsglist.getD []) ∧
      ∃ ppu ∈ s.pluginConfigJsonlist, ppu.filename = snprintf ipcLogSavePathMaxLens path := by
    have hany : ¬ (c.plugins.pluginConfigJsonlist.any fun ppu => ppu.filename == path) = true :=
      Bool.not_eq_true _ ▸ hnew
    rw [ipcdPluginMonitorAddFile, if_neg hany, hfile]
    simp only [hparse, Option.bind_eq_bind, Option.bind_some, if_true]
    exact ⟨_, rfl, rfl, _, List.mem_append_right _ (List.mem_singleton_self _), rfl⟩
  refine ⟨c.put s (c.pluginConfigJsonlist.isSome ||
    (!c.loaded path && (cmd.fs.files path).isSome)), ?_, ?_, ?_, fun monitor u => ?_⟩
  · rw [ipcctlAnalysisCore, hcmd]
    simp only [pluginCommand, pluginAddFile, hpath, hadd, Option.map_some]
  · obtain ⟨ppu, hppu, hname⟩ := hunits
    rw [snprintf_of_lt hshort] at hname
    rw [hnew, hfile, Option.isSome_some, Bool.not_false, Bool.and_true, Bool.or_true]
    exact List.any_eq_true.2 ⟨ppu, hppu, beq_iff_eq.2 hname⟩
  · simp only [Console.put, getD_created, htables]
    exact htable.foldl hrules
  · simp only [Console.put, getD_created, htables]
    rw [mem_pairs_foldl htable hrules]
    refine or_congr_right ⟨?_, ?_⟩
    · rintro ⟨r, hr, rfl, rfl⟩
      exact (hmem r).1 hr
    · intro hanswer
      exact ⟨⟨monitor, u.msg, u.type⟩, (hmem _).2 hanswer, rfl, rfl⟩

/-- A file with members that the loader does not look up: an object of rules with its members in another
order, and an object without a type. -/
def alarmFile : Json ℚ :=
  .object [(bytes "version", .number 2), (bytes "LIST", .array
    [.object [(bytes "broadcast", .array [.object [(bytes "shell", .string (bytes "ls"))]]),
      (bytes "monitor", .array [.string (bytes "alarm")]),
      (bytes "type", .string (bytes "m2m"))],
    .object [(bytes "note", .bool true)]])]

theorem printable_alarmFile : alarmFile.Printable rationals := by
  have hnames : ∀ s ∈ [bytes "version", bytes "LIST", bytes "broadcast", bytes "shell", bytes "ls",
      bytes "monitor", bytes "alarm", bytes "type", bytes "m2m", bytes "note"],
      (0 : UInt8) ∉ s := by decide
  simp only [List.forall_mem_cons, List.not_mem_nil] at hnames
  obtain ⟨hversion, hlist, hbroadcast, hshell, hls, hmonitor, halarm, htype, hm2m, hnote, -⟩ := hnames
  exact ⟨hversion, ⟨2, by decide, rfl⟩, hlist,
    ⟨⟨hbroadcast, ⟨⟨hshell, hls, trivial⟩, trivial⟩, hmonitor, ⟨halarm, trivial⟩, htype, hm2m, trivial⟩,
      ⟨hnote, trivial, trivial⟩, trivial⟩, trivial⟩

/-- The object of rules of the file. -/
def alarmObject : CJson :=
  .node none none
    [.node (some (bytes "broadcast")) none [jsonItem (bytes "shell", bytes "ls")],
      .node (some (bytes "monitor")) none [jsonString (bytes "alarm")],
      .node (some (bytes "type")) (some (bytes "m2m")) []]

theorem items_alarmFile : (alarmFile.toCJson none).items (bytes "list") =
    [alarmObject, .node none none [.node (some (bytes "note")) none []]] := rfl

theorem loadable_alarmObject : Loadable alarmObject where
  typed typeNameObj h := by
    obtain rfl := Option.some.inj h
    exact ⟨bytes "m2m", rfl, by decide⟩
  rules _ :=
    { monitors := by
        rw [show alarmObject.items (bytes "monitor") = [jsonString (bytes "alarm")] from rfl]
        exact List.forall_mem_singleton.2 ⟨bytes "alarm", rfl, by decide⟩
      broadcasts := by
        rw [show alarmObject.items (bytes "broadcast") = [jsonItem (bytes "shell", bytes "ls")] from rfl]
        exact List.forall_mem_singleton.2 ⟨(bytes "shell", bytes "ls"), rfl, by decide, by decide⟩ }

theorem rulesFile_alarmFile : RulesFile (alarmFile.toCJson none) where
  list := rfl
  loadable := by
    rw [items_alarmFile]
    refine List.forall_mem_cons.2 ⟨loadable_alarmObject, List.forall_mem_singleton.2 ⟨?_, ?_⟩⟩
    · intro typeNameObj h
      cases h
    · intro h
      cases h

/-- The file, as the printer writes it. -/
def alarmTexts : Texts := fun _ => cJSONPrint rationals alarmFile

/-- The file is loaded. -/
def alarmCommand : Command :=
  ⟨⟨fun _ => some (bytes "/p.eec"), alarmTexts.files rationals fun _ => (0, 0), fun _ => []⟩,
    fun _ _ _ => .msg, .plugin (.file (bytes "p.eec"))⟩

/-- A file with one rule, as it is printed. -/
theorem rules_file_loaded_alarm : ∃ c', ipcctlAnalysisCore alarmCommand {} = some c' ∧
    ∀ monitor u, u ∈ pairs (c'.monitorMsglist.getD []) monitor ↔
      FileAnswers (alarmFile.toCJson none) monitor u := by
  have hprint : (cJSONPrint rationals alarmFile).isSome = true :=
    (printValue_isSome_iff rationals bounded_rationals true 0 _).2 nofun
  obtain ⟨text, htext⟩ := Option.isSome_iff_exists.1 hprint
  obtain ⟨d, hrender, hvalue⟩ :=
    exists_doc rationals exactInts_rationals true 0 _ text printable_alarmFile htext
  have hcmd : alarmCommand.icp = .plugin (.file (bytes "p.eec")) := rfl
  have hfiles : alarmCommand.fs.files = alarmTexts.files rationals fun _ => (0, 0) := by
    rw [alarmCommand]
  have hpath : alarmCommand.fs.realpath (bytes "p.eec") = some (bytes "/p.eec") := rfl
  have hshort : (bytes "/p.eec").length < ipcLogSavePathMaxLens := by decide
  have hdoc : alarmTexts (bytes "/p.eec") =
      some (Whitespace.none.bytes ++ d.render ++ Whitespace.none.bytes) := by
    rw [alarmTexts, htext, hrender]
    simp [Whitespace.none]
  have hrules : RulesFile ((d.value rationals).toCJson none) := hvalue ▸ rulesFile_alarmFile
  have hnew : ({} : Console).loaded (bytes "/p.eec") = false := rfl
  obtain ⟨c', hrun, -, -, hpairs⟩ := rules_file_loaded rationals (fun _ => (0, 0)) exactInts_rationals
    hcmd hfiles hpath hshort hdoc hrules hnew ruleTable_nil
  refine ⟨c', hrun, fun monitor u => ?_⟩
  rw [hpairs, hvalue]
  simp [pairs]

/-! ## The view -/

/-- `ipcd_plugin_view`: the names of the files with the texts of their trees. -/
def ipcdPluginView (list : List (CStr × Json ν)) : Option (List (CStr × CStr)) :=
  list.mapM fun ppu => do
    let str ← cJSONPrint fp ppu.2
    some (ppu.1, str)

/-- The file as the loaders keep it. -/
def viewedUnit (ppu : CStr × Json ν) : PluginUnit := ⟨ppu.1, ppu.2.toCJson none⟩

/-- A line of the view: the name of the file, and a text that is read back as its tree. -/
def Shows (ppu : CStr × Json ν) (entry : CStr × CStr) : Prop :=
  entry.1 = ppu.1 ∧ (ppu.2.Printable fp → ∀ rest,
    cJSONParse fp junk (entry.2 ++ 0 :: rest) = .done ppu.2 (0 :: rest))

theorem ipcdPluginView_isSome (hfp : fp.ExactInts) {list : List (CStr × Json ν)}
    (h : ∀ ppu ∈ list, (cJSONPrint fp ppu.2).isSome = true) :
    ∃ shown, ipcdPluginView fp list = some shown ∧ List.Forall₂ (Shows fp junk) list shown := by
  unfold ipcdPluginView
  induction list with
  | nil => exact ⟨[], rfl, .nil⟩
  | cons ppu list ih =>
    obtain ⟨str, hstr⟩ := Option.isSome_iff_exists.1 (h ppu (by simp))
    obtain ⟨shown, hshown, hall⟩ := ih fun ppu' hppu' => h ppu' (by simp [hppu'])
    refine ⟨(ppu.1, str) :: shown, ?_, .cons ⟨rfl, fun hexact rest => ?_⟩ hall⟩
    · rw [List.mapM_cons, hstr, hshown]
      rfl
    · exact cJSONParse_printValue fp junk hfp hexact hstr rest

/-- **The view never leaves its memory.**  `cJSON_Print` writes outside of its block for the empty
object, and no file that the daemon has loaded in any run is that; the text that is shown for a tree of
`int`s and C strings is read back as the tree. -/
theorem view_defined {labels : List (DaemonAct ⊕ Command)} {c : Console} {out : List Send}
    {list : List (CStr × Json ν)} (hbounded : fp.Bounded) (hfp : fp.ExactInts)
    (hrun : consoleMachine.run {} labels = some (c, out))
    (hlist : c.pluginConfigJsonlist = some (list.map viewedUnit)) :
    ∃ shown, ipcdPluginView fp list = some shown ∧ List.Forall₂ (Shows fp junk) list shown := by
  obtain ⟨hist, hrecorded⟩ := (Machine.run_recorded PluginRecord.record {}).1 hrun
  have htrees := (fromHistory_run hrecorded).trees
  rw [hlist, Option.getD_some] at htrees
  refine ipcdPluginView_isSome fp junk hfp fun ppu hppu => ?_
  obtain ⟨hroot, -⟩ := htrees (viewedUnit ppu) (List.mem_map_of_mem hppu)
  refine (printValue_isSome_iff fp hbounded true 0 ppu.2).2 ?_
  rintro ⟨-, -, hempty⟩
  rw [viewedUnit, hempty] at hroot
  cases hroot

/-- The file of the run in which a member joins and a file is loaded. -/
def servedValue : Json ℚ :=
  .object [(bytes "list", .array
    [.object [(bytes "type", .string (bytes "m2m")),
        (bytes "monitor", .array [.string (bytes "alarm")]),
        (bytes "broadcast", .array [.object [(bytes "shell", .string (bytes "ls"))]])],
      .object [(bytes "type", .string (bytes "mask_msg")),
        (bytes "send", .array [.object [(bytes "pname", .string (bytes "a")),
          (bytes "mname", .string (bytes "m"))]])]])]

/-- It is shown. -/
theorem view_defined_served : ∃ c out shown, consoleMachine.run {} sampleServed = some (c, out) ∧
    c.pluginConfigJsonlist = some ([(bytes "/p.eec", servedValue)].map viewedUnit) ∧
    ipcdPluginView rationals [(bytes "/p.eec", servedValue)] = some shown := by
  obtain ⟨⟨c, out⟩, hrun, hlist⟩ : ∃ p, consoleMachine.run {} sampleServed = some p ∧
      p.1.pluginConfigJsonlist = some ([(bytes "/p.eec", servedValue)].map viewedUnit) := ⟨_, rfl, rfl⟩
  obtain ⟨shown, hshown, -⟩ :=
    view_defined rationals (fun _ => (0, 0)) bounded_rationals exactInts_rationals hrun hlist
  exact ⟨c, out, shown, hrun, hlist, hshown⟩

end EasyIpc
