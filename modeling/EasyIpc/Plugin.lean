import EasyIpc.Registry
import EasyIpc.Lib.Printf

/-!
# Plugins

The loaders of `easyipc_plugin.c`: rules that answer a message with actions, and masks that hide
messages from members.  A plugin file is a JSON tree; the fields of a node that the loaders read are
its name, its string and its children.  A null pointer that the code reads through, or gives to
`strcmp` or to `%s`, ends the daemon: there the result is `none`.

* `ipcdPluginMonitorMsgInsert`, `ipcdPluginParseM2m` — the table of the rules, and the loader of an
  object of rules.
* `ipcdPluginParseMask`, `ipcdPluginParseRoot` — the masks, and a whole file.
* `ipcdPluginMonitorAddFile`, `ipcdPluginRefresh` — the first reading of a file, and the reading of
  all files once more.

The kind of a rule is kept in a variable that each round of `ipcd_plugin_parse_m2m` declares without
a value; what it holds there is a parameter, `junk`.
-/

namespace EasyIpc

open Printf FirstMatch

/-! ## JSON trees -/

/-- A node of the tree that `cJSON_Parse` gives: `string`, `valuestring` and the chain at `child`. -/
inductive CJson where
  | node (string valuestring : Option CStr) (child : List CJson)

namespace CJson

/-- The name of a node in its object. -/
def string : CJson → Option CStr
  | node string _ _ => string

/-- The text of a string. -/
def valuestring : CJson → Option CStr
  | node _ valuestring _ => valuestring

/-- The items of an array or an object. -/
def child : CJson → List CJson
  | node _ _ child => child

end CJson

/-- `cJSON_strcasecmp(s1, s2) == 0`, for a name that may be null. -/
def cJSONStrcasecmpEq (s1 : Option CStr) (s2 : CStr) : Bool :=
  match s1 with
  | none => false
  | some s1 => s1.map tolower == s2.map tolower

/-- `cJSON_GetArraySize`. -/
def cJSONGetArraySize (array : CJson) : ℕ := array.child.length

/-- `cJSON_GetObjectItem`: names are compared without regard to case. -/
def cJSONGetObjectItem (object : CJson) (string : CStr) : Option CJson :=
  object.child.find? fun c => cJSONStrcasecmpEq c.string string

/-! ## The table of the rules -/

/-- `IPC_PLUGIN_MSG_MAX_SIZE`. -/
def ipcPluginMsgMaxSize : ℕ := 256

/-- `PLUGIN_BROADCAT_TYPE`. -/
inductive PluginBroadcatType where
  | msg
  | uiled
  | syscmd
  | shell
  /-- A value of the `int` that the enumeration has no name for. -/
  | other (code : ℤ)
  deriving DecidableEq, Repr

/-- `broadcast_unit`. -/
structure BroadcastUnit where
  msg : CStr
  type : PluginBroadcatType
  deriving DecidableEq, Repr

/-- `monitor_msg`.  The other three lists of the structure are never used. -/
structure MonitorMsg where
  monitorMsgName : CStr
  broadcastMsglist : List BroadcastUnit
  deriving DecidableEq, Repr

/-- The new `broadcast_unit` of an insertion. -/
def newUnit (broadcatMname : CStr) (type : PluginBroadcatType) : BroadcastUnit :=
  ⟨snprintf ipcPluginMsgMaxSize broadcatMname, type⟩

/-- What an insertion does to the entry of its name. -/
def insertUnit (broadcatMname : CStr) (type : PluginBroadcatType) (mm : MonitorMsg) : MonitorMsg :=
  if ⟨broadcatMname, type⟩ ∈ mm.broadcastMsglist then mm
  else { mm with broadcastMsglist := mm.broadcastMsglist ++ [newUnit broadcatMname type] }

/-- The entry has the name. -/
def isMonitor (monitorMname : CStr) (mm : MonitorMsg) : Bool := mm.monitorMsgName == monitorMname

/-- `ipcd_plugin_monitor_msg_insert`: the table is searched from its end. -/
def ipcdPluginMonitorMsgInsert (monitorMname broadcatMname : CStr) (type : PluginBroadcatType)
    (monitorMsglist : List MonitorMsg) : List MonitorMsg :=
  if monitorMsglist.any (isMonitor monitorMname) then
    (modifyFirst (isMonitor monitorMname) (insertUnit broadcatMname type)
      monitorMsglist.reverse).reverse
  else
    monitorMsglist ++ [⟨snprintf ipcMsgMaxSize monitorMname, [newUnit broadcatMname type]⟩]

/-! ## Objects of rules -/

/-- The four tests for the kind of an item: a name that is none of the four leaves `item_type` as it
is. -/
def itemTypeOf (string : CStr) (itemType : PluginBroadcatType) : PluginBroadcatType :=
  let itemType := if string = bytes "msg" then .msg else itemType
  let itemType := if string = bytes "uiled" then .uiled else itemType
  let itemType := if string = bytes "syscmd" then .syscmd else itemType
  if string = bytes "shell" then .shell else itemType

/-- The inner loop of `ipcd_plugin_parse_m2m`, from an item and a value of `item_type` on. -/
def parseM2mItems (monitorObjMsg : Option CStr) :
    PluginBroadcatType → List CJson → List MonitorMsg → Option (List MonitorMsg)
  | _, [], monitorMsglist => some monitorMsglist
  | itemType, broadcastObjItem :: items, monitorMsglist => do
      let child ← broadcastObjItem.child.head?
      let string ← child.string
      let itemType := itemTypeOf string itemType
      let monitorMname ← monitorObjMsg
      let broadcatMname ← child.valuestring
      parseM2mItems monitorObjMsg itemType items
        (ipcdPluginMonitorMsgInsert monitorMname broadcatMname itemType monitorMsglist)

/-- The outer loop, from the `i`th monitor on; `junk i` is what `item_type` holds where the `i`th
round declares it. -/
def parseM2mMonitors (obj : CJson) (junk : ℕ → PluginBroadcatType) :
    ℕ → List CJson → List MonitorMsg → Option (List MonitorMsg)
  | _, [], monitorMsglist => some monitorMsglist
  | i, monitor :: monitors, monitorMsglist =>
      match cJSONGetObjectItem obj (bytes "broadcast") with
      | none => some monitorMsglist
      | some broadcastObj =>
          if cJSONGetArraySize broadcastObj = 0 then some monitorMsglist
          else do
            let monitorMsglist ←
              parseM2mItems monitor.valuestring (junk i) broadcastObj.child monitorMsglist
            parseM2mMonitors obj junk (i + 1) monitors monitorMsglist

/-- `ipcd_plugin_parse_m2m`. -/
def ipcdPluginParseM2m (junk : ℕ → PluginBroadcatType) (obj : CJson)
    (monitorMsglist : List MonitorMsg) : Option (List MonitorMsg) :=
  match cJSONGetObjectItem obj (bytes "monitor") with
  | none => some monitorMsglist
  | some monitorObj => parseM2mMonitors obj junk 0 monitorObj.child monitorMsglist

/-! ## Masks -/

/-- The two lists of masks of a member. -/
inductive MaskSide where
  | sender
  | receiver
  deriving DecidableEq, Repr

/-- `dlist_attach` to one of the lists of masks. -/
def attachMask (side : MaskSide) (mname : CStr) (tmlm : MlistMember) : MlistMember :=
  match side with
  | .sender => { tmlm with maskSender := tmlm.maskSender ++ [mname] }
  | .receiver => { tmlm with maskReceiver := tmlm.maskReceiver ++ [mname] }

/-- A mask for the program `pname` is for the member. -/
def maskCovers (pname : CStr) (tmlm : MlistMember) : Bool :=
  pname == tmlm.pname || pname == anyName

/-- The body of the loop over the members. -/
def maskMember (side : MaskSide) (pname mname : Option CStr) (tmlm : MlistMember) :
    Option MlistMember := do
  let pname ← pname
  if maskCovers pname tmlm then
    let mname ← mname
    some (attachMask side mname tmlm)
  else some tmlm

/-- The body of the loop over the masks. -/
def maskItem (side : MaskSide) (mlist : List MlistMember) (itemp : CJson) :
    Option (List MlistMember) :=
  match cJSONGetObjectItem itemp (bytes "pname"), cJSONGetObjectItem itemp (bytes "mname") with
  | some pnamep, some mnamep =>
      mlist.mapM (maskMember side pnamep.valuestring mnamep.valuestring)
  | _, _ => some mlist

/-- One of the two halves of `ipcd_plugin_parse_mask`. -/
def parseMaskSide (side : MaskSide) (maskp : Option CJson) (mlist : List MlistMember) :
    Option (List MlistMember) :=
  match maskp with
  | none => some mlist
  | some maskp => maskp.child.foldlM (maskItem side) mlist

/-- `ipcd_plugin_parse_mask`. -/
def ipcdPluginParseMask (obj : CJson) (mlist : List MlistMember) : Option (List MlistMember) := do
  let mlist ← parseMaskSide .sender (cJSONGetObjectItem obj (bytes "send")) mlist
  parseMaskSide .receiver (cJSONGetObjectItem obj (bytes "recv")) mlist

/-! ## Files -/

/-- The tables that the loaders change. -/
structure PluginTables where
  monitorMsglist : List MonitorMsg
  mlist : List MlistMember
  deriving DecidableEq, Repr

/-- The body of the loop of `ipcd_plugin_parse_root`. -/
def parseRootItem (junk : ℕ → PluginBroadcatType) (rootListItem : CJson) (t : PluginTables) :
    Option PluginTables :=
  match cJSONGetObjectItem rootListItem (bytes "type") with
  | none => some t
  | some typeNameObj => do
      let typeName ← typeNameObj.valuestring
      if typeName = bytes "m2m" then
        let monitorMsglist ← ipcdPluginParseM2m junk rootListItem t.monitorMsglist
        some { t with monitorMsglist }
      else if typeName = bytes "mask_msg" then
        let mlist ← ipcdPluginParseMask rootListItem t.mlist
        some { t with mlist }
      else some t

/-- The loop of `ipcd_plugin_parse_root`, from the `i`th item on. -/
def parseRootItems (junk : ℕ → ℕ → PluginBroadcatType) :
    ℕ → List CJson → PluginTables → Option PluginTables
  | _, [], t => some t
  | i, rootListItem :: items, t => do
      let t ← parseRootItem (junk i) rootListItem t
      parseRootItems junk (i + 1) items t

/-- `ipcd_plugin_parse_root`: `false` is the result `-1`. -/
def ipcdPluginParseRoot (junk : ℕ → ℕ → PluginBroadcatType) (root : CJson) (t : PluginTables) :
    Option (Bool × PluginTables) :=
  match cJSONGetObjectItem root (bytes "list") with
  | none => some (false, t)
  | some rootList => do
      let t ← parseRootItems junk 0 rootList.child t
      some (true, t)

/-- `IPC_LOG_SAVE_PATH_MAX_LENS`. -/
def ipcLogSavePathMaxLens : ℕ := 256

/-- `plugin_unit`. -/
structure PluginUnit where
  filename : CStr
  root : CJson

/-- The tables and `plugin_config_jsonlist`. -/
structure Plugins extends PluginTables where
  pluginConfigJsonlist : List PluginUnit

/-- What a path leads to: the tree of a file that can be opened, is not empty and can be parsed. -/
abbrev Files := CStr → Option CJson

/-- `ipcd_plugin_monitor_add_file`, for the path that `realpath` gives. -/
def ipcdPluginMonitorAddFile (files : Files) (junk : ℕ → ℕ → PluginBroadcatType) (path : CStr)
    (s : Plugins) : Option Plugins :=
  if s.pluginConfigJsonlist.any (fun ppu => ppu.filename == path) then some s
  else
    match files path with
    | none => some s
    | some root => do
        let (parsed, t) ← ipcdPluginParseRoot junk root s.toPluginTables
        if parsed then
          some ⟨t, s.pluginConfigJsonlist ++ [⟨snprintf ipcLogSavePathMaxLens path, root⟩]⟩
        else some ⟨t, s.pluginConfigJsonlist⟩

/-- The loop of `ipcd_plugin_refresh`, from the `k`th file on: the first file that cannot be read
ends it. -/
def refreshUnits (files : Files) (junk : ℕ → ℕ → ℕ → PluginBroadcatType) :
    ℕ → List PluginUnit → PluginTables → Option Plugins
  | _, [], t => some ⟨t, []⟩
  | k, ppu :: units, t =>
      match files ppu.filename with
      | none => some ⟨t, ppu :: units⟩
      | some root => do
          let (parsed, t) ← ipcdPluginParseRoot (junk k) root t
          let s ← refreshUnits files junk (k + 1) units t
          some ⟨s.toPluginTables,
            (if parsed then { ppu with root } else ppu) :: s.pluginConfigJsonlist⟩

/-- `ipcd_plugin_refresh`. -/
def ipcdPluginRefresh (files : Files) (junk : ℕ → ℕ → ℕ → PluginBroadcatType) (s : Plugins) :
    Option Plugins :=
  refreshUnits files junk 0 s.pluginConfigJsonlist s.toPluginTables

end EasyIpc
