import EasyIpc.Plugin

/-!
# The rules that are loaded

`Rule` is what one call of `ipcd_plugin_monitor_msg_insert` is about, and `m2mRules` lists the rules
of an object without the table: `ipcdPluginParseM2m_eq` says that the loader inserts them one after
the other.

* `pairs` — the texts and kinds that the table holds for a name; `RuleTable` — no name and no pair
  is there twice.  `mem_pairs_load` says what one insertion does, `mem_pairs_foldl` what a run of
  them does.
* `M2mObject` — an object of rules that is well formed, with its names and its items.
-/

namespace EasyIpc

open Printf FirstMatch

/-- A rule: the message that is watched, and the text and the kind of the answer. -/
@[ext] structure Rule where
  monitor : CStr
  broadcast : CStr
  type : PluginBroadcatType
  deriving DecidableEq, Repr

namespace Rule

/-- The answer of a rule. -/
def unit (r : Rule) : BroadcastUnit := ⟨r.broadcast, r.type⟩

/-- `ipcd_plugin_monitor_msg_insert` for a rule. -/
def load (monitorMsglist : List MonitorMsg) (r : Rule) : List MonitorMsg :=
  ipcdPluginMonitorMsgInsert r.monitor r.broadcast r.type monitorMsglist

/-- The name and the text fit into their fields. -/
def Short (r : Rule) : Prop :=
  r.monitor.length < ipcMsgMaxSize ∧ r.broadcast.length < ipcPluginMsgMaxSize

instance (r : Rule) : Decidable r.Short := inferInstanceAs (Decidable (_ ∧ _))

end Rule

/-! ## The rules of an object -/

/-- The rules of the inner loop. -/
def itemRules (monitorObjMsg : Option CStr) :
    PluginBroadcatType → List CJson → Option (List Rule)
  | _, [] => some []
  | itemType, broadcastObjItem :: items => do
      let child ← broadcastObjItem.child.head?
      let string ← child.string
      let itemType := itemTypeOf string itemType
      let monitorMname ← monitorObjMsg
      let broadcatMname ← child.valuestring
      let rules ← itemRules monitorObjMsg itemType items
      some (⟨monitorMname, broadcatMname, itemType⟩ :: rules)

/-- The rules of the outer loop. -/
def monitorRules (obj : CJson) (junk : ℕ → PluginBroadcatType) :
    ℕ → List CJson → Option (List Rule)
  | _, [] => some []
  | i, monitor :: monitors =>
      match cJSONGetObjectItem obj (bytes "broadcast") with
      | none => some []
      | some broadcastObj =>
          if cJSONGetArraySize broadcastObj = 0 then some []
          else do
            let rules ← itemRules monitor.valuestring (junk i) broadcastObj.child
            let more ← monitorRules obj junk (i + 1) monitors
            some (rules ++ more)

/-- The rules of an object. -/
def m2mRules (junk : ℕ → PluginBroadcatType) (obj : CJson) : Option (List Rule) :=
  match cJSONGetObjectItem obj (bytes "monitor") with
  | none => some []
  | some monitorObj => monitorRules obj junk 0 monitorObj.child

theorem parseM2mItems_eq (monitorObjMsg : Option CStr) (itemType : PluginBroadcatType)
    (items : List CJson) (monitorMsglist : List MonitorMsg) :
    parseM2mItems monitorObjMsg itemType items monitorMsglist =
      (itemRules monitorObjMsg itemType items).map (List.foldl Rule.load monitorMsglist) := by
  induction items generalizing itemType monitorMsglist with
  | nil => rfl
  | cons item items ih =>
    rw [parseM2mItems, itemRules]
    cases item.child.head? with
    | none => rfl
    | some child =>
      cases hs : child.string with
      | none => simp [hs]
      | some string =>
        cases monitorObjMsg with
        | none => simp
        | some monitorMname =>
          cases hv : child.valuestring with
          | none => simp [hs, hv]
          | some broadcatMname =>
            simp only [hs, hv, Option.bind_eq_bind, Option.bind_some, ih]
            cases itemRules (some monitorMname) (itemTypeOf string itemType) items <;> rfl

theorem parseM2mMonitors_eq (obj : CJson) (junk : ℕ → PluginBroadcatType) (i : ℕ)
    (monitors : List CJson) (monitorMsglist : List MonitorMsg) :
    parseM2mMonitors obj junk i monitors monitorMsglist =
      (monitorRules obj junk i monitors).map (List.foldl Rule.load monitorMsglist) := by
  induction monitors generalizing i monitorMsglist with
  | nil => rfl
  | cons monitor monitors ih =>
    rw [parseM2mMonitors, monitorRules]
    cases cJSONGetObjectItem obj (bytes "broadcast") with
    | none => rfl
    | some broadcastObj =>
      by_cases hsize : cJSONGetArraySize broadcastObj = 0
      · simp [hsize]
      · simp only [if_neg hsize, parseM2mItems_eq, ih, Option.bind_eq_bind]
        cases itemRules monitor.valuestring (junk i) broadcastObj.child with
        | none => rfl
        | some rules =>
          cases monitorRules obj junk (i + 1) monitors with
          | none => rfl
          | some more => simp [List.foldl_append]

/-- **The loader inserts the rules of the object, one after the other.** -/
theorem ipcdPluginParseM2m_eq (junk : ℕ → PluginBroadcatType) (obj : CJson)
    (monitorMsglist : List MonitorMsg) :
    ipcdPluginParseM2m junk obj monitorMsglist =
      (m2mRules junk obj).map (List.foldl Rule.load monitorMsglist) := by
  unfold ipcdPluginParseM2m m2mRules
  cases cJSONGetObjectItem obj (bytes "monitor") with
  | none => rfl
  | some monitorObj => exact parseM2mMonitors_eq obj junk 0 monitorObj.child monitorMsglist

/-! ## The table -/

section Table

variable {table : List MonitorMsg} {r : Rule} {rules : List Rule}

/-- What the table holds for a name. -/
def pairs (table : List MonitorMsg) (monitor : CStr) : List BroadcastUnit :=
  (table.filter (isMonitor monitor)).flatMap MonitorMsg.broadcastMsglist

@[simp] theorem isMonitor_iff {monitor : CStr} {mm : MonitorMsg} :
    isMonitor monitor mm = true ↔ mm.monitorMsgName = monitor := by
  simp [isMonitor]

theorem mem_pairs {monitor : CStr} {u : BroadcastUnit} :
    u ∈ pairs table monitor ↔
      ∃ mm ∈ table, mm.monitorMsgName = monitor ∧ u ∈ mm.broadcastMsglist := by
  simp [pairs, and_assoc]

/-- No name is in the table twice, and no answer in an entry. -/
structure RuleTable (table : List MonitorMsg) : Prop where
  names : (table.map MonitorMsg.monitorMsgName).Nodup
  answers : ∀ mm ∈ table, mm.broadcastMsglist.Nodup

theorem ruleTable_nil : RuleTable [] := ⟨by simp, by simp⟩

/-- At most one entry has a name. -/
theorem RuleTable.pairwise (h : RuleTable table) (monitor : CStr) :
    table.Pairwise fun a b => ¬ (isMonitor monitor a ∧ isMonitor monitor b) :=
  pairwise_not_both h.names fun _ ha => isMonitor_iff.1 ha

/-- No answer to a name is in the table twice. -/
theorem RuleTable.nodup_pairs (h : RuleTable table) (monitor : CStr) :
    (pairs table monitor).Nodup := by
  refine List.nodup_flatMap.2 ⟨fun mm hmm => h.answers mm (List.mem_filter.1 hmm).1, ?_⟩
  refine List.pairwise_filter.2 ((h.pairwise monitor).imp ?_)
  intro a b hab ha hb
  exact absurd ⟨ha, hb⟩ hab

/-- The answer of a short rule is stored as it is. -/
theorem newUnit_of_short (hr : r.Short) : newUnit r.broadcast r.type = r.unit := by
  rw [newUnit, snprintf_of_lt hr.2, Rule.unit]

/-- The insertion, where no name is twice: the scan from the end meets the one entry of the name. -/
theorem load_eq (h : RuleTable table) (hr : r.Short) :
    r.load table =
      if table.any (isMonitor r.monitor) then
        table.map fun mm =>
          if isMonitor r.monitor mm then insertUnit r.broadcast r.type mm else mm
      else table ++ [⟨r.monitor, [r.unit]⟩] := by
  have hrev : table.reverse.Pairwise fun a b =>
      ¬ (isMonitor r.monitor a ∧ isMonitor r.monitor b) := by
    refine List.pairwise_reverse.2 ((h.pairwise r.monitor).imp ?_)
    intro a b hab hba
    exact hab hba.symm
  rw [Rule.load, ipcdPluginMonitorMsgInsert, modifyFirst_eq_map hrev, List.map_reverse,
    List.reverse_reverse, snprintf_of_lt hr.1, newUnit_of_short hr]

@[simp] theorem monitorMsgName_insertUnit (broadcatMname : CStr) (type : PluginBroadcatType)
    (mm : MonitorMsg) : (insertUnit broadcatMname type mm).monitorMsgName = mm.monitorMsgName := by
  unfold insertUnit
  split <;> rfl

theorem mem_insertUnit (hr : r.Short) {mm : MonitorMsg} {u : BroadcastUnit} :
    u ∈ (insertUnit r.broadcast r.type mm).broadcastMsglist ↔
      u ∈ mm.broadcastMsglist ∨ u = r.unit := by
  unfold insertUnit
  by_cases hin : (⟨r.broadcast, r.type⟩ : BroadcastUnit) ∈ mm.broadcastMsglist
  · rw [if_pos hin]
    refine ⟨Or.inl, ?_⟩
    rintro (hu | rfl)
    · exact hu
    · exact hin
  · rw [if_neg hin, newUnit_of_short hr, List.mem_append, List.mem_singleton]

theorem nodup_insertUnit (hr : r.Short) {mm : MonitorMsg} (h : mm.broadcastMsglist.Nodup) :
    (insertUnit r.broadcast r.type mm).broadcastMsglist.Nodup := by
  unfold insertUnit
  by_cases hin : (⟨r.broadcast, r.type⟩ : BroadcastUnit) ∈ mm.broadcastMsglist
  · rw [if_pos hin]
    exact h
  · rw [if_neg hin, newUnit_of_short hr]
    exact h.append (List.nodup_singleton _) (by simpa [Rule.unit] using hin)

/-- A table of rules stays one. -/
theorem RuleTable.load (h : RuleTable table) (hr : r.Short) : RuleTable (r.load table) := by
  rw [load_eq h hr]
  by_cases hany : table.any (isMonitor r.monitor)
  · rw [if_pos hany]
    refine ⟨?_, ?_⟩
    · rw [List.map_map]
      refine (List.map_congr_left ?_ : _ = table.map MonitorMsg.monitorMsgName) ▸ h.names
      intro mm _
      rw [Function.comp_apply]
      split
      · exact monitorMsgName_insertUnit r.broadcast r.type mm
      · rfl
    · intro mm hmm
      obtain ⟨a, ha, rfl⟩ := List.mem_map.1 hmm
      by_cases hm : isMonitor r.monitor a
      · rw [if_pos hm]
        exact nodup_insertUnit hr (h.answers a ha)
      · rw [if_neg hm]
        exact h.answers a ha
  · rw [if_neg hany]
    refine ⟨?_, ?_⟩
    · rw [List.map_append]
      refine h.names.append (by simp) ?_
      simpa using hany
    · intro mm hmm
      rcases List.mem_append.1 hmm with hmm | hmm
      · exact h.answers mm hmm
      · rw [List.mem_singleton.1 hmm]
        exact List.nodup_singleton _

/-- An insertion adds the answer of the rule to its name, and nothing else. -/
theorem mem_pairs_load (h : RuleTable table) (hr : r.Short) {monitor : CStr}
    {u : BroadcastUnit} :
    u ∈ pairs (r.load table) monitor ↔
      u ∈ pairs table monitor ∨ (r.monitor = monitor ∧ u = r.unit) := by
  rw [load_eq h hr, mem_pairs, mem_pairs]
  by_cases hany : table.any (isMonitor r.monitor)
  · rw [if_pos hany]
    refine ⟨?_, ?_⟩
    · rintro ⟨mm, hmm, hname, hu⟩
      obtain ⟨a, ha, rfl⟩ := List.mem_map.1 hmm
      by_cases hm : isMonitor r.monitor a
      · rw [if_pos hm] at hname hu
        rw [monitorMsgName_insertUnit] at hname
        rcases (mem_insertUnit hr).1 hu with hu | hu
        · exact Or.inl ⟨a, ha, hname, hu⟩
        · exact Or.inr ⟨(isMonitor_iff.1 hm).symm.trans hname, hu⟩
      · rw [if_neg hm] at hname hu
        exact Or.inl ⟨a, ha, hname, hu⟩
    · rintro (⟨a, ha, hname, hu⟩ | ⟨rfl, rfl⟩)
      · refine ⟨_, List.mem_map_of_mem ha, ?_⟩
        by_cases hm : isMonitor r.monitor a
        · rw [if_pos hm, monitorMsgName_insertUnit]
          exact ⟨hname, (mem_insertUnit hr).2 (Or.inl hu)⟩
        · rw [if_neg hm]
          exact ⟨hname, hu⟩
      · obtain ⟨a, ha, hm⟩ := List.any_eq_true.1 hany
        refine ⟨_, List.mem_map_of_mem ha, ?_⟩
        rw [if_pos hm, monitorMsgName_insertUnit]
        exact ⟨isMonitor_iff.1 hm, (mem_insertUnit hr).2 (Or.inr rfl)⟩
  · rw [if_neg hany]
    simp only [List.mem_append, List.mem_singleton, or_and_right, exists_or, exists_eq_left]

theorem RuleTable.foldl (h : RuleTable table) (hrules : ∀ r ∈ rules, r.Short) :
    RuleTable (rules.foldl Rule.load table) := by
  induction rules generalizing table with
  | nil => exact h
  | cons r rules ih =>
    exact ih (h.load (hrules r (by simp))) fun r' hr' => hrules r' (by simp [hr'])

/-- **A run of insertions adds exactly the answers of its rules.** -/
theorem mem_pairs_foldl (h : RuleTable table) (hrules : ∀ r ∈ rules, r.Short) {monitor : CStr}
    {u : BroadcastUnit} :
    u ∈ pairs (rules.foldl Rule.load table) monitor ↔
      u ∈ pairs table monitor ∨ ∃ r ∈ rules, r.monitor = monitor ∧ u = r.unit := by
  induction rules generalizing table with
  | nil => simp
  | cons r rules ih =>
    have hr : r.Short := hrules r (by simp)
    rw [List.foldl_cons, ih (h.load hr) fun r' hr' => hrules r' (by simp [hr']),
      mem_pairs_load h hr, or_assoc]
    simp [or_and_right, exists_or]

end Table

/-! ## Well-formed objects -/

/-- The kind that the name of an item stands for. -/
def kindOf (key : CStr) : Option PluginBroadcatType :=
  if key = bytes "msg" then some .msg
  else if key = bytes "uiled" then some .uiled
  else if key = bytes "syscmd" then some .syscmd
  else if key = bytes "shell" then some .shell
  else none

theorem itemTypeOf_eq (key : CStr) (itemType : PluginBroadcatType) :
    itemTypeOf key itemType = (kindOf key).getD itemType := by
  unfold itemTypeOf kindOf
  -- the four names differ, so at most one of the tests succeeds
  have huiled : bytes "uiled" ≠ bytes "msg" := by decide
  have hsyscmd : bytes "syscmd" ≠ bytes "msg" ∧ bytes "syscmd" ≠ bytes "uiled" := by decide
  have hshell : bytes "shell" ≠ bytes "msg" ∧ bytes "shell" ≠ bytes "uiled" ∧
      bytes "shell" ≠ bytes "syscmd" := by decide
  by_cases h4 : key = bytes "shell"
  · simp [h4, hshell]
  · by_cases h3 : key = bytes "syscmd"
    · simp [h3, hsyscmd, hshell.2.2.symm]
    · by_cases h2 : key = bytes "uiled"
      · simp [h2, huiled, hsyscmd.2.symm, hshell.2.1.symm]
      · simp [h2, h3, h4]
        split <;> rfl

/-- The first member of an object, by its name and its text. -/
def CJson.firstMember (item : CJson) : Option (CStr × CStr) := do
  let child ← item.child.head?
  let string ← child.string
  let valuestring ← child.valuestring
  some (string, valuestring)

/-- A string in an array. -/
def jsonString (s : CStr) : CJson := .node none (some s) []

/-- An object with one member, in an array. -/
def jsonItem (item : CStr × CStr) : CJson :=
  .node none none [.node (some item.1) (some item.2) []]

/-- An object of rules: the names it watches, and the items by their first members. -/
structure M2mObject where
  obj : CJson
  monitors : List CStr
  items : List (CStr × CStr)
  monitors_ne : monitors ≠ []
  items_ne : items ≠ []
  monitor_short : ∀ m ∈ monitors, m.length < ipcMsgMaxSize
  text_short : ∀ item ∈ items, item.2.length < ipcPluginMsgMaxSize
  monitor_eq : (cJSONGetObjectItem obj (bytes "monitor")).map
    (fun monitorObj => monitorObj.child.map CJson.valuestring) = some (monitors.map some)
  broadcast_eq : (cJSONGetObjectItem obj (bytes "broadcast")).map
    (fun broadcastObj => broadcastObj.child.map CJson.firstMember) = some (items.map some)

/-- The kind in `item_type` after some items. -/
def lastKind (itemType : PluginBroadcatType) (items : List (CStr × CStr)) : PluginBroadcatType :=
  items.foldl (fun itemType item => (kindOf item.1).getD itemType) itemType

/-- The rules of one round of the outer loop. -/
def textRules (monitor : CStr) : PluginBroadcatType → List (CStr × CStr) → List Rule
  | _, [] => []
  | itemType, item :: items =>
      let itemType := (kindOf item.1).getD itemType
      ⟨monitor, item.2, itemType⟩ :: textRules monitor itemType items

theorem itemRules_firstMember (monitor : CStr) (itemType : PluginBroadcatType)
    {nodes : List CJson} {items : List (CStr × CStr)}
    (h : nodes.map CJson.firstMember = items.map some) :
    itemRules (some monitor) itemType nodes = some (textRules monitor itemType items) := by
  induction nodes generalizing itemType items with
  | nil =>
    obtain rfl := List.map_eq_nil_iff.1 h.symm
    rfl
  | cons node nodes ih =>
    obtain ⟨item, items, rfl⟩ : ∃ item more, items = item :: more :=
      List.exists_cons_of_ne_nil fun hnil => by simp [hnil] at h
    obtain ⟨hnode, hnodes⟩ := List.cons.inj h
    simp only [CJson.firstMember, Option.bind_eq_bind, Option.bind_eq_some_iff,
      Option.some.injEq] at hnode
    obtain ⟨child, hchild, string, hstring, text, htext, rfl⟩ := hnode
    simp only [itemRules, textRules, hchild, hstring, htext, Option.bind_eq_bind, Option.bind_some,
      itemTypeOf_eq, ih _ hnodes]

/-- A rule of a round is an item with the kind that `item_type` has there. -/
theorem mem_textRules {monitor : CStr} {itemType : PluginBroadcatType}
    {items : List (CStr × CStr)} {r : Rule} :
    r ∈ textRules monitor itemType items ↔ r.monitor = monitor ∧
      ∃ before key after, items = before ++ (key, r.broadcast) :: after ∧
        r.type = (kindOf key).getD (lastKind itemType before) := by
  induction items generalizing itemType with
  | nil => simp [textRules]
  | cons item items ih =>
    rw [textRules, List.mem_cons, ih]
    refine ⟨?_, ?_⟩
    · rintro (rfl | ⟨rfl, before, key, after, rfl, htype⟩)
      · exact ⟨rfl, [], item.1, items, rfl, rfl⟩
      · exact ⟨rfl, item :: before, key, after, rfl, htype⟩
    · rintro ⟨rfl, before, key, after, heq, htype⟩
      cases before with
      | nil =>
        obtain ⟨rfl, rfl⟩ := List.cons.inj heq
        exact Or.inl (Rule.ext rfl rfl htype)
      | cons first before =>
        obtain ⟨rfl, rfl⟩ := List.cons.inj heq
        exact Or.inr ⟨rfl, before, key, after, rfl, htype⟩

namespace M2mObject

variable (junk : ℕ → PluginBroadcatType) (o : M2mObject)

/-- The rules of the object. -/
def rules : List Rule :=
  o.monitors.zipIdx.flatMap fun m => textRules m.1 (junk m.2) o.items

theorem monitorRules_eq (i : ℕ) {nodes : List CJson} {monitors : List CStr}
    (h : nodes.map CJson.valuestring = monitors.map some) :
    monitorRules o.obj junk i nodes =
      some ((monitors.zipIdx i).flatMap fun m => textRules m.1 (junk m.2) o.items) := by
  obtain ⟨broadcastObj, hobj, hchild⟩ := Option.map_eq_some_iff.1 o.broadcast_eq
  have hsize : cJSONGetArraySize broadcastObj ≠ 0 := by
    have hlen := congrArg List.length hchild
    rw [List.length_map, List.length_map] at hlen
    rw [cJSONGetArraySize, hlen]
    exact fun h => o.items_ne (List.length_eq_zero_iff.1 h)
  induction nodes generalizing i monitors with
  | nil =>
    obtain rfl := List.map_eq_nil_iff.1 h.symm
    rfl
  | cons node nodes ih =>
    obtain ⟨monitor, monitors, rfl⟩ : ∃ monitor more, monitors = monitor :: more :=
      List.exists_cons_of_ne_nil fun hnil => by simp [hnil] at h
    obtain ⟨hnode, hnodes⟩ := List.cons.inj h
    rw [monitorRules, hobj]
    simp only [if_neg hsize, hnode, itemRules_firstMember monitor _ hchild, ih (i + 1) hnodes]
    rfl

theorem m2mRules_eq : m2mRules junk o.obj = some (o.rules junk) := by
  obtain ⟨monitorObj, hobj, hchild⟩ := Option.map_eq_some_iff.1 o.monitor_eq
  rw [m2mRules, hobj]
  exact o.monitorRules_eq junk 0 hchild

/-- A rule of the object is a name with an item, and the kind of the nearest item from there
backwards that has one. -/
theorem mem_rules {r : Rule} :
    r ∈ o.rules junk ↔ ∃ j, o.monitors[j]? = some r.monitor ∧
      ∃ before key after, o.items = before ++ (key, r.broadcast) :: after ∧
        r.type = (kindOf key).getD (lastKind (junk j) before) := by
  rw [rules, List.mem_flatMap]
  refine ⟨?_, ?_⟩
  · rintro ⟨⟨m, j⟩, hm, hr⟩
    obtain ⟨rfl, hitem⟩ := mem_textRules.1 hr
    exact ⟨j, List.mem_zipIdx_iff_getElem?.1 hm, hitem⟩
  · rintro ⟨j, hj, hitem⟩
    exact ⟨(r.monitor, j), List.mem_zipIdx_iff_getElem?.2 hj, mem_textRules.2 ⟨rfl, hitem⟩⟩

theorem short_of_mem_rules {r : Rule} (h : r ∈ o.rules junk) : r.Short := by
  obtain ⟨j, hj, before, key, after, hitems, -⟩ := (o.mem_rules junk).1 h
  refine ⟨o.monitor_short _ (List.mem_of_getElem? hj), o.text_short (key, r.broadcast) ?_⟩
  rw [hitems]
  simp

/-- The answers that the object has for every name of its own: the items with one of the four
names. -/
def Answers (u : BroadcastUnit) : Prop := ∃ key, (key, u.msg) ∈ o.items ∧ kindOf key = some u.type

/-- Where every item has one of the four names, the rules are the answers to the names. -/
theorem mem_rules_of_kinds (hkinds : ∀ item ∈ o.items, kindOf item.1 ≠ none) {r : Rule} :
    r ∈ o.rules junk ↔ r.monitor ∈ o.monitors ∧ o.Answers r.unit := by
  rw [o.mem_rules]
  refine ⟨?_, ?_⟩
  · rintro ⟨j, hj, before, key, after, hitems, htype⟩
    have hitem : (key, r.broadcast) ∈ o.items := by
      rw [hitems]
      simp
    obtain ⟨kind, hkind⟩ := Option.ne_none_iff_exists'.1 (hkinds _ hitem)
    dsimp only at hkind
    rw [hkind, Option.getD_some] at htype
    exact ⟨List.mem_of_getElem? hj, key, hitem, hkind.trans (congrArg some htype.symm)⟩
  · rintro ⟨hmonitor, key, hitem, hkind⟩
    obtain ⟨j, hj⟩ := List.mem_iff_getElem?.1 hmonitor
    obtain ⟨before, after, hitems⟩ := List.append_of_mem hitem
    refine ⟨j, hj, before, key, after, hitems, ?_⟩
    rw [hkind, Option.getD_some]
    rfl

/-- Loaded into an empty table, every name of the object has its answers and no others, and no
answer is there twice. -/
def LoadedAsWritten : Prop :=
  ∃ table, ipcdPluginParseM2m junk o.obj [] = some table ∧
    (∀ m ∈ o.monitors, ∀ u, u ∈ pairs table m ↔ o.Answers u) ∧ ∀ m, (pairs table m).Nodup

/-- Every item of another name repeats an answer of the object: the text and the kind that is left
in `item_type` when its turn comes. -/
def OthersRepeat : Prop :=
  ∀ j < o.monitors.length, ∀ before key text after, o.items = before ++ (key, text) :: after →
    kindOf key = none → o.Answers ⟨text, lastKind (junk j) before⟩

/-- What the loader makes of the object: a name is answered by the rules for it. -/
theorem parseM2m_nil :
    ∃ table, ipcdPluginParseM2m junk o.obj [] = some table ∧ RuleTable table ∧
      ∀ m u, u ∈ pairs table m ↔ ⟨m, u.msg, u.type⟩ ∈ o.rules junk := by
  have hshort : ∀ r ∈ o.rules junk, r.Short := fun r hr => o.short_of_mem_rules junk hr
  refine ⟨(o.rules junk).foldl Rule.load [], ?_, ruleTable_nil.foldl hshort, ?_⟩
  · rw [ipcdPluginParseM2m_eq, o.m2mRules_eq]
    rfl
  · intro m u
    rw [mem_pairs_foldl ruleTable_nil hshort]
    refine ⟨?_, fun h => Or.inr ⟨_, h, rfl, rfl⟩⟩
    rintro (h | ⟨r, hr, rfl, rfl⟩)
    · simp [pairs] at h
    · exact hr

/-- **An object is loaded as written exactly when its items of other names add nothing.** -/
theorem rules_loaded : o.LoadedAsWritten junk ↔ o.OthersRepeat junk := by
  obtain ⟨table, htable, hwf, hpairs⟩ := o.parseM2m_nil junk
  refine ⟨?_, ?_⟩
  · rintro ⟨table', htable', hloaded, -⟩ j hj before key text after hitems hkey
    obtain rfl : table = table' := Option.some.inj (htable.symm.trans htable')
    -- the rule that the item makes is in the table, so it is an answer
    refine (hloaded o.monitors[j] (List.getElem_mem hj) _).1 ((hpairs _ _).2 ?_)
    refine (o.mem_rules junk).2 ⟨j, List.getElem?_eq_getElem hj, before, key, after, hitems, ?_⟩
    rw [hkey, Option.getD_none]
  · intro hothers
    refine ⟨table, htable, ?_, hwf.nodup_pairs⟩
    intro m hm u
    rw [hpairs, o.mem_rules]
    refine ⟨?_, ?_⟩
    · rintro ⟨j, hj, before, key, after, hitems, htype⟩
      cases hkey : kindOf key with
      | some kind =>
        rw [hkey, Option.getD_some] at htype
        refine ⟨key, ?_, hkey.trans (congrArg some htype.symm)⟩
        rw [hitems]
        simp
      | none =>
        rw [hkey, Option.getD_none] at htype
        have hlt : j < o.monitors.length := (List.getElem?_eq_some_iff.1 hj).1
        have hanswer := hothers j hlt before key u.msg after hitems hkey
        rwa [← htype] at hanswer
    · rintro ⟨key, hitem, hkey⟩
      obtain ⟨j, hj⟩ := List.mem_iff_getElem?.1 hm
      obtain ⟨before, after, hitems⟩ := List.append_of_mem hitem
      exact ⟨j, hj, before, key, after, hitems, by rw [hkey, Option.getD_some]⟩

/-- An object for one name: a command, and a note that has none of the four names. -/
def note : M2mObject where
  obj := .node none none
    [.node (some (bytes "type")) (some (bytes "m2m")) [],
      .node (some (bytes "monitor")) none [jsonString (bytes "alarm")],
      .node (some (bytes "broadcast")) none
        [jsonItem (bytes "shell", bytes "ls"), jsonItem (bytes "note", bytes "ps")]]
  monitors := [bytes "alarm"]
  items := [(bytes "shell", bytes "ls"), (bytes "note", bytes "ps")]
  monitors_ne := by simp
  items_ne := by simp
  monitor_short := by decide
  text_short := by decide
  monitor_eq := by rfl
  broadcast_eq := by rfl

/-- The note is run by the shell. -/
theorem note_loaded : ¬ ∀ (junk : ℕ → PluginBroadcatType) (o : M2mObject),
    o.LoadedAsWritten junk := by
  intro h
  obtain ⟨table, htable, hloaded, -⟩ := h (fun _ => .msg) note
  have hnote : ipcdPluginParseM2m (fun _ => .msg) note.obj [] =
      some [⟨bytes "alarm", [⟨bytes "ls", .shell⟩, ⟨bytes "ps", .shell⟩]⟩] := by decide +kernel
  obtain rfl := Option.some.inj (hnote.symm.trans htable)
  have hin : note.Answers ⟨bytes "ps", .shell⟩ :=
    (hloaded (bytes "alarm") (by simp [note]) _).1 (by decide +kernel)
  obtain ⟨key, hitem, hkey⟩ := hin
  have hother : ∀ item ∈ note.items, item.2 = bytes "ps" → kindOf item.1 = none := by
    decide +kernel
  rw [hother _ hitem rfl] at hkey
  simp at hkey

end M2mObject

end EasyIpc
