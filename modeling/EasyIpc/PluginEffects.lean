import EasyIpc.PluginRules
import EasyIpc.Lib.Replay

/-!
# Loaders as lists of effects

What the loaders do to the tables one at a time: a rule is inserted, or a mask is put to the members
it covers.  The list of the effects of a file does not depend on the tables.

* `ipcdPluginParseRoot_eq`, `ipcdPluginRefresh_eq` — a file, and a refresh, replay their effects.
* `growing_apply` — an effect leaves the tables as they are or adds to them.
-/

namespace EasyIpc

open Printf FirstMatch Replay

/-! ## Effects -/

/-- A step of a loader: a rule is inserted, or a mask is put to the members it covers. -/
inductive Effect where
  | rule (r : Rule)
  | mask (side : MaskSide) (pname mname : Option CStr)

/-- What the step does to the tables. -/
def Effect.apply (t : PluginTables) : Effect → Option PluginTables
  | .rule r => some { t with monitorMsglist := r.load t.monitorMsglist }
  | .mask side pname mname => do
      let mlist ← t.mlist.mapM (maskMember side pname mname)
      some { t with mlist }

/-- The effect of an item of `send` or `recv`. -/
def maskEffect (side : MaskSide) (itemp : CJson) : Option Effect :=
  match cJSONGetObjectItem itemp (bytes "pname"), cJSONGetObjectItem itemp (bytes "mname") with
  | some pnamep, some mnamep => some (.mask side pnamep.valuestring mnamep.valuestring)
  | _, _ => none

/-- The effects of `send` or `recv`. -/
def sideEffects (side : MaskSide) (maskp : Option CJson) : List Effect :=
  match maskp with
  | none => []
  | some maskp => maskp.child.filterMap (maskEffect side)

/-- The effects of an object of masks. -/
def maskEffects (obj : CJson) : List Effect :=
  sideEffects .sender (cJSONGetObjectItem obj (bytes "send")) ++
    sideEffects .receiver (cJSONGetObjectItem obj (bytes "recv"))

/-- The effects of an object of a file. -/
def itemEffects (junk : ℕ → PluginBroadcatType) (rootListItem : CJson) : Option (List Effect) :=
  match cJSONGetObjectItem rootListItem (bytes "type") with
  | none => some []
  | some typeNameObj => do
      let typeName ← typeNameObj.valuestring
      if typeName = bytes "m2m" then
        let rules ← m2mRules junk rootListItem
        some (rules.map Effect.rule)
      else if typeName = bytes "mask_msg" then some (maskEffects rootListItem)
      else some []

/-- The effects of the objects of a file, from the `i`th on. -/
def itemsEffects (junk : ℕ → ℕ → PluginBroadcatType) : ℕ → List CJson → Option (List Effect)
  | _, [] => some []
  | i, rootListItem :: items => do
      let effects ← itemEffects (junk i) rootListItem
      let more ← itemsEffects junk (i + 1) items
      some (effects ++ more)

/-- The effects of a file. -/
def rootEffects (junk : ℕ → ℕ → PluginBroadcatType) (root : CJson) : Option (List Effect) :=
  match cJSONGetObjectItem root (bytes "list") with
  | none => some []
  | some rootList => itemsEffects junk 0 rootList.child

/-! ## The loaders as effects -/

/-- One effect after the other, if there is a list of them. -/
def replay (t : PluginTables) (effects : Option (List Effect)) : Option PluginTables :=
  effects.bind fun effects => effects.foldlM Effect.apply t

theorem replay_append (t : PluginTables) (first second : Option (List Effect)) :
    replay t (first.bind fun effects => second.bind fun more => some (effects ++ more)) =
      (replay t first).bind fun t' => replay t' second := by
  cases first with
  | none => rfl
  | some effects =>
    cases second with
    | none =>
      simp only [replay, Option.bind_some, Option.bind_none]
      cases effects.foldlM Effect.apply t <;> rfl
    | some more => simp [replay, List.foldlM_append]

theorem foldlM_rule (rules : List Rule) (t : PluginTables) :
    (rules.map Effect.rule).foldlM Effect.apply t =
      some { t with monitorMsglist := rules.foldl Rule.load t.monitorMsglist } := by
  induction rules generalizing t with
  | nil => rfl
  | cons r rules ih =>
    rw [List.map_cons, List.foldlM_cons, Effect.apply, Option.bind_eq_bind, Option.bind_some, ih]
    rfl

theorem foldlM_maskEffect (side : MaskSide) (items : List CJson) (t : PluginTables) :
    (items.filterMap (maskEffect side)).foldlM Effect.apply t =
      (items.foldlM (maskItem side) t.mlist).map fun mlist => { t with mlist } := by
  induction items generalizing t with
  | nil => rfl
  | cons itemp items ih =>
    rw [List.foldlM_cons, List.filterMap_cons]
    unfold maskItem maskEffect
    cases cJSONGetObjectItem itemp (bytes "pname") with
    | none => exact ih t
    | some pnamep =>
      cases cJSONGetObjectItem itemp (bytes "mname") with
      | none => exact ih t
      | some mnamep =>
        simp only [List.foldlM_cons, Effect.apply, Option.bind_eq_bind]
        cases t.mlist.mapM (maskMember side pnamep.valuestring mnamep.valuestring) with
        | none => rfl
        | some mlist =>
          exact ih { t with mlist }

theorem foldlM_sideEffects (side : MaskSide) (maskp : Option CJson) (t : PluginTables) :
    (sideEffects side maskp).foldlM Effect.apply t =
      (parseMaskSide side maskp t.mlist).map fun mlist => { t with mlist } := by
  cases maskp with
  | none => rfl
  | some maskp => exact foldlM_maskEffect side maskp.child t

theorem foldlM_maskEffects (obj : CJson) (t : PluginTables) :
    (maskEffects obj).foldlM Effect.apply t =
      (ipcdPluginParseMask obj t.mlist).map fun mlist => { t with mlist } := by
  rw [maskEffects, List.foldlM_append, foldlM_sideEffects, ipcdPluginParseMask]
  cases parseMaskSide .sender (cJSONGetObjectItem obj (bytes "send")) t.mlist with
  | none => rfl
  | some mlist =>
    simp only [Option.map_some, Option.bind_eq_bind, Option.bind_some]
    exact foldlM_sideEffects _ _ _

theorem parseRootItem_eq (junk : ℕ → PluginBroadcatType) (rootListItem : CJson)
    (t : PluginTables) :
    parseRootItem junk rootListItem t = replay t (itemEffects junk rootListItem) := by
  unfold parseRootItem itemEffects replay
  cases cJSONGetObjectItem rootListItem (bytes "type") with
  | none => rfl
  | some typeNameObj =>
    cases htype : typeNameObj.valuestring with
    | none => simp [htype]
    | some typeName =>
      simp only [htype, Option.bind_eq_bind, Option.bind_some]
      by_cases hm2m : typeName = bytes "m2m"
      · rw [if_pos hm2m, if_pos hm2m, ipcdPluginParseM2m_eq]
        cases m2mRules junk rootListItem with
        | none => rfl
        | some rules => exact (foldlM_rule rules t).symm
      · rw [if_neg hm2m, if_neg hm2m]
        by_cases hmask : typeName = bytes "mask_msg"
        · rw [if_pos hmask, if_pos hmask, Option.bind_some, foldlM_maskEffects]
          cases ipcdPluginParseMask rootListItem t.mlist <;> rfl
        · rw [if_neg hmask, if_neg hmask]
          rfl

theorem parseRootItems_eq (junk : ℕ → ℕ → PluginBroadcatType) (i : ℕ) (items : List CJson)
    (t : PluginTables) : parseRootItems junk i items t = replay t (itemsEffects junk i items) := by
  induction items generalizing i t with
  | nil => rfl
  | cons item items ih =>
    rw [parseRootItems, itemsEffects, parseRootItem_eq]
    simp only [ih]
    exact (replay_append t _ _).symm

/-- **A file is a list of effects that does not depend on the tables.** -/
theorem ipcdPluginParseRoot_eq (junk : ℕ → ℕ → PluginBroadcatType) (root : CJson)
    (t : PluginTables) :
    (ipcdPluginParseRoot junk root t).map Prod.snd = replay t (rootEffects junk root) := by
  unfold ipcdPluginParseRoot rootEffects
  cases cJSONGetObjectItem root (bytes "list") with
  | none => rfl
  | some rootList =>
    simp only [parseRootItems_eq]
    cases replay t (itemsEffects junk 0 rootList.child) <;> rfl

/-- The effects of the files that a refresh reads, from the `k`th on. -/
def refreshEffects (files : Files) (junk : ℕ → ℕ → ℕ → PluginBroadcatType) :
    ℕ → List CStr → Option (List Effect)
  | _, [] => some []
  | k, filename :: filenames =>
      match files filename with
      | none => some []
      | some root => do
          let effects ← rootEffects (junk k) root
          let more ← refreshEffects files junk (k + 1) filenames
          some (effects ++ more)

section Refresh

variable {files : Files}

/-- The names under which a refresh looks for the files. -/
def Plugins.filenames (s : Plugins) : List CStr := s.pluginConfigJsonlist.map PluginUnit.filename

theorem refreshUnits_eq (junk : ℕ → ℕ → ℕ → PluginBroadcatType) (k : ℕ) (units : List PluginUnit)
    (t : PluginTables) :
    (refreshUnits files junk k units t).map Plugins.toPluginTables =
      replay t (refreshEffects files junk k (units.map PluginUnit.filename)) := by
  induction units generalizing k t with
  | nil => rfl
  | cons ppu units ih =>
    rw [refreshUnits, List.map_cons, refreshEffects]
    cases files ppu.filename with
    | none => rfl
    | some root =>
      -- first the tables that the file leaves, then the other files from there
      simp only [Option.bind_eq_bind, replay_append, ← ih, ← ipcdPluginParseRoot_eq]
      cases ipcdPluginParseRoot (junk k) root t with
      | none => rfl
      | some result =>
        simp only [Option.bind_some, Option.map_some]
        cases refreshUnits files junk (k + 1) units result.2 <;> rfl

/-- **A refresh is the list of the effects of the files it reads.** -/
theorem ipcdPluginRefresh_eq (junk : ℕ → ℕ → ℕ → PluginBroadcatType) (s : Plugins) :
    (ipcdPluginRefresh files junk s).map Plugins.toPluginTables =
      replay s.toPluginTables (refreshEffects files junk 0 s.filenames) :=
  refreshUnits_eq junk 0 s.pluginConfigJsonlist s.toPluginTables

theorem filename_refreshUnits {junk : ℕ → ℕ → ℕ → PluginBroadcatType} {k : ℕ}
    {units : List PluginUnit} {t : PluginTables} {s : Plugins}
    (h : refreshUnits files junk k units t = some s) :
    s.filenames = units.map PluginUnit.filename := by
  induction units generalizing k t s with
  | nil =>
    obtain rfl := Option.some.inj h
    rfl
  | cons ppu units ih =>
    rw [refreshUnits] at h
    cases hfile : files ppu.filename with
    | none =>
      rw [hfile] at h
      obtain rfl := Option.some.inj h
      rfl
    | some root =>
      rw [hfile] at h
      obtain ⟨⟨parsed, t'⟩, -, h⟩ := Option.bind_eq_some_iff.1 h
      obtain ⟨s', hrest, h⟩ := Option.bind_eq_some_iff.1 h
      obtain rfl := Option.some.inj h
      rw [Plugins.filenames, List.map_cons, List.map_cons, ← ih hrest]
      cases parsed <;> rfl

/-- A refresh reads the same files as the next one. -/
theorem filenames_ipcdPluginRefresh {junk : ℕ → ℕ → ℕ → PluginBroadcatType} {s s' : Plugins}
    (h : ipcdPluginRefresh files junk s = some s') : s'.filenames = s.filenames :=
  filename_refreshUnits h

end Refresh

/-! ## Growth -/

/-- How much is in the tables. -/
def PluginTables.size (t : PluginTables) : ℕ :=
  (t.monitorMsglist.map fun mm => mm.broadcastMsglist.length + 1).sum +
    (t.mlist.map fun m => m.maskSender.length + m.maskReceiver.length).sum

theorem insertUnit_eq_self_iff {r : Rule} {mm : MonitorMsg} :
    insertUnit r.broadcast r.type mm = mm ↔ r.unit ∈ mm.broadcastMsglist := by
  unfold insertUnit
  by_cases hin : (⟨r.broadcast, r.type⟩ : BroadcastUnit) ∈ mm.broadcastMsglist
  · rw [if_pos hin]
    exact ⟨fun _ => hin, fun _ => rfl⟩
  · rw [if_neg hin]
    refine ⟨fun h => ?_, fun h => absurd h hin⟩
    have hlen := congrArg (fun mm => mm.broadcastMsglist.length) h
    simp at hlen

theorem grows_insertUnit (r : Rule) (mm : MonitorMsg) :
    Grows (fun mm => mm.broadcastMsglist.length + 1) mm (insertUnit r.broadcast r.type mm) := by
  unfold insertUnit
  split
  · exact Or.inl rfl
  · exact Or.inr (by simp)

/-- An insertion leaves the table as it is or adds to it. -/
theorem load_grows (r : Rule) (table : List MonitorMsg) :
    r.load table = table ∨
      (table.map fun mm => mm.broadcastMsglist.length + 1).sum <
        ((r.load table).map fun mm => mm.broadcastMsglist.length + 1).sum := by
  rw [Rule.load, ipcdPluginMonitorMsgInsert]
  split
  · have hscan := sum_of_forall₂ (forall₂_modifyFirst (p := isMonitor r.monitor)
      (grows_insertUnit r) table.reverse)
    rcases hscan with hsame | hlt
    · exact Or.inl (by rw [hsame, List.reverse_reverse])
    · refine Or.inr ?_
      rw [List.map_reverse, List.sum_reverse] at hlt
      rwa [List.map_reverse, List.sum_reverse]
  · exact Or.inr (by simp)

theorem grows_maskMember {side : MaskSide} {pname mname : Option CStr} {m m' : MlistMember}
    (h : maskMember side pname mname m = some m') :
    Grows (fun m => m.maskSender.length + m.maskReceiver.length) m m' := by
  obtain ⟨p, -, h⟩ := Option.bind_eq_some_iff.1 h
  split at h
  · obtain ⟨name, -, h⟩ := Option.bind_eq_some_iff.1 h
    obtain rfl := Option.some.inj h
    refine Or.inr ?_
    cases side <;> simp [attachMask]
  · exact Or.inl (Option.some.inj h).symm

/-- **An effect leaves the tables as they are or adds to them.** -/
theorem growing_apply : Growing Effect.apply PluginTables.size := by
  intro t e t' h
  cases e with
  | rule r =>
    obtain rfl := Option.some.inj h
    rcases load_grows r t.monitorMsglist with hsame | hlt
    · exact Or.inl (by rw [hsame])
    · exact Or.inr (Nat.add_lt_add_right hlt _)
  | mask side pname mname =>
    obtain ⟨mlist, hmlist, h⟩ := Option.bind_eq_some_iff.1 h
    obtain rfl := Option.some.inj h
    rcases sum_of_forall₂ (forall₂_mapM (fun _ _ => grows_maskMember) hmlist) with rfl | hlt
    · exact Or.inl rfl
    · exact Or.inr (Nat.add_lt_add_left hlt _)

end EasyIpc
