import EasyIpc.ConsoleEffects

/-!
# What the plugin tables hold

The tables after any run of the daemon, from what the commands have read since the last `CLEAN`.  The
effects of the trees that are read are kept in a history beside the state.

* `Command.effects` — what a command reads.
* `Console.Reads` — a command replays what it reads on the tables, whatever it is.
* `FromHistory`, `fromHistory_run` — in every run the rules are those that have been read, in their
  order, and the masks of a member those that have been read for it since its join.
* `plugin_tables` — what that says of the table of the rules and of the files that the view shows.
-/

namespace EasyIpc

open Printf FirstMatch Replay Trace

/-! ## What the commands read -/

/-- The effects of the tree behind a name. -/
def fileEffects (fs : FileSystem) (junk : ℕ → ℕ → PluginBroadcatType) (filename : CStr)
    (c : Console) : List Effect :=
  match fs.realpath filename with
  | none => []
  | some path =>
      if c.loaded path then []
      else
        match fs.files path with
        | none => []
        | some root => (rootEffects junk root).getD []

/-- The effects of the trees behind the names of a directory, from the `j`th on. -/
def filesEffects (fs : FileSystem) (junk : ℕ → ℕ → ℕ → PluginBroadcatType) :
    ℕ → List CStr → Console → List Effect
  | _, [], _ => []
  | j, name :: names, c =>
      fileEffects fs (junk j) name c ++
        match pluginAddFile fs (junk j) name c with
        | none => []
        | some c => filesEffects fs junk (j + 1) names c

/-- The effects of what a command reads. -/
def Command.effects (cmd : Command) (c : Console) : List Effect :=
  match cmd.icp with
  | .plugin (.file path) => fileEffects cmd.fs (cmd.junk 0) path c
  | .plugin (.dir path) =>
      match cmd.fs.realpath path with
      | none => []
      | some path => filesEffects cmd.fs cmd.junk 0 ((cmd.fs.scandir path).filter ecFilter) c
  | .plugin .refresh => (refreshEffects cmd.fs.files cmd.junk 0 c.plugins.filenames).getD []
  | _ => []

/-- The command is `CLEAN`. -/
def Command.isClean (cmd : Command) : Bool :=
  match cmd.icp with
  | .plugin .clean => true
  | _ => false

/-- What has been read since the last `CLEAN`, and for each join that the daemon has accepted, by whom
and how much had been read. -/
structure PluginRecord where
  read : List Effect := []
  joins : List (Ident × ℕ) := []

/-- The member that a step of the daemon takes in. -/
def joinedBy (d : Daemon) : DaemonAct → Option Ident
  | .recv stale addr ⟨_, .join info⟩ =>
      (ipcdJoin stale info addr d.mlist).1.map MlistMember.ident
  | _ => none

/-- A step of the daemon, or a command. -/
def PluginRecord.record (c : Console) (l : DaemonAct ⊕ Command) (hist : PluginRecord) : PluginRecord :=
  match l with
  | .inl a =>
      { hist with
        joins := hist.joins ++ (joinedBy c.daemon a).toList.map fun k => (k, hist.read.length) }
  | .inr cmd =>
      if cmd.isClean then { read := [], joins := hist.joins.map fun x => (x.1, 0) }
      else { hist with read := hist.read ++ cmd.effects c }

/-- The daemon with the history of what has been read. -/
def recordedConsole : Machine (Console × PluginRecord) (DaemonAct ⊕ Command) Send :=
  consoleMachine.recorded PluginRecord.record

/-! ## What a list of effects does -/

/-- The rules among the effects. -/
def rulesOf (effects : List Effect) : List Rule :=
  effects.filterMap fun
    | .rule r => some r
    | .mask _ _ _ => none

theorem rulesOf_append (first second : List Effect) :
    rulesOf (first ++ second) = rulesOf first ++ rulesOf second :=
  List.filterMap_append

theorem mem_rulesOf {effects : List Effect} {r : Rule} :
    r ∈ rulesOf effects ↔ Effect.rule r ∈ effects := by
  unfold rulesOf
  rw [List.mem_filterMap]
  refine ⟨?_, fun h => ⟨_, h, rfl⟩⟩
  rintro ⟨e, he, hr⟩
  cases e with
  | rule r' => exact Option.some.inj hr ▸ he
  | mask side pname mname => cases hr

/-- One of the lists of masks of a member. -/
def MlistMember.masks (m : MlistMember) : MaskSide → List CStr
  | .sender => m.maskSender
  | .receiver => m.maskReceiver

/-- The name that an effect puts into one of the lists of a member. -/
def Effect.maskFor (side : MaskSide) (m : MlistMember) : Effect → Option CStr
  | .rule _ => none
  | .mask side' pname mname =>
      if side' = side ∧ pname.any fun p => maskCovers p m then mname else none

/-- The masks that effects put to a member. -/
def masksFor (side : MaskSide) (m : MlistMember) (effects : List Effect) : List CStr :=
  effects.filterMap (Effect.maskFor side m)

theorem masksFor_append (side : MaskSide) (m : MlistMember) (first second : List Effect) :
    masksFor side m (first ++ second) = masksFor side m first ++ masksFor side m second :=
  List.filterMap_append

/-- Masks are put to a member by the name of its program. -/
theorem masksFor_congr {m m' : MlistMember} (h : m'.pname = m.pname) (side : MaskSide)
    (effects : List Effect) : masksFor side m' effects = masksFor side m effects := by
  have hcovers : ∀ p, maskCovers p m' = maskCovers p m := fun p => by rw [maskCovers, h, maskCovers]
  have heffect : Effect.maskFor side m' = Effect.maskFor side m := by
    funext e
    cases e with
    | rule r => rfl
    | mask side' pname mname => simp only [Effect.maskFor, hcovers]
  rw [masksFor, heffect, masksFor]

/-- A member before and after effects: the same process, with their masks put to it. -/
def Masked (effects : List Effect) (m m' : MlistMember) : Prop :=
  m'.ident = m.ident ∧ ∀ side, m'.masks side = m.masks side ++ masksFor side m effects

theorem Masked.pname_eq {effects : List Effect} {m m' : MlistMember} (h : Masked effects m m') :
    m'.pname = m.pname := congrArg Ident.pname h.1

theorem Masked.refl (m : MlistMember) : Masked [] m m := ⟨rfl, fun _ => (List.append_nil _).symm⟩

theorem Masked.trans {first second : List Effect} {m m' m'' : MlistMember} (h : Masked first m m')
    (h' : Masked second m' m'') : Masked (first ++ second) m m'' := by
  refine ⟨h'.1.trans h.1, fun side => ?_⟩
  rw [h'.2, h.2, masksFor_congr h.pname_eq, masksFor_append, List.append_assoc]

/-- What the loop over the members does to one of them. -/
theorem masked_maskMember {side : MaskSide} {pname mname : Option CStr} {m m' : MlistMember}
    (h : maskMember side pname mname m = some m') : Masked [.mask side pname mname] m m' := by
  obtain ⟨p, hp, h⟩ := Option.bind_eq_some_iff.1 h
  subst hp
  change (if maskCovers p m then mname.bind fun mname => some (attachMask side mname m) else some m) =
    some m' at h
  by_cases hcovers : maskCovers p m = true
  · rw [if_pos hcovers] at h
    obtain ⟨name, hname, h⟩ := Option.bind_eq_some_iff.1 h
    subst hname
    obtain rfl := Option.some.inj h
    refine ⟨by cases side <;> rfl, fun side' => ?_⟩
    cases side <;> cases side' <;>
      simp [masksFor, Effect.maskFor, MlistMember.masks, attachMask, hcovers]
  · rw [if_neg hcovers] at h
    obtain rfl := Option.some.inj h
    refine ⟨rfl, fun side' => ?_⟩
    simp [masksFor, Effect.maskFor, hcovers]

/-- The tables before and after effects. -/
structure Replayed (effects : List Effect) (t t' : PluginTables) : Prop where
  rules : t'.monitorMsglist = (rulesOf effects).foldl Rule.load t.monitorMsglist
  masks : List.Forall₂ (Masked effects) t.mlist t'.mlist

theorem Replayed.refl (t : PluginTables) : Replayed [] t t :=
  ⟨rfl, List.forall₂_same.2 fun m _ => Masked.refl m⟩

theorem Replayed.trans {first second : List Effect} {t t' t'' : PluginTables}
    (h : Replayed first t t') (h' : Replayed second t' t'') :
    Replayed (first ++ second) t t'' := by
  refine ⟨?_, forall₂_trans ?_ h.masks h'.masks⟩
  · rw [h'.rules, h.rules, rulesOf_append, List.foldl_append]
  · exact fun _ _ _ => Masked.trans

theorem replayed_apply {t t' : PluginTables} {e : Effect} (h : e.apply t = some t') :
    Replayed [e] t t' := by
  cases e with
  | rule r =>
    obtain rfl := Option.some.inj h
    refine ⟨rfl, List.forall₂_same.2 fun m _ => ?_⟩
    exact ⟨rfl, fun side => by simp [masksFor, Effect.maskFor]⟩
  | mask side pname mname =>
    obtain ⟨mlist, hmlist, h⟩ := Option.bind_eq_some_iff.1 h
    obtain rfl := Option.some.inj h
    exact ⟨rfl, forall₂_mapM (fun _ _ => masked_maskMember) hmlist⟩

/-- **Effects put their rules to the table, in their order, and their masks to the members they
cover.** -/
theorem replayed_foldlM {effects : List Effect} {t t' : PluginTables}
    (h : effects.foldlM Effect.apply t = some t') : Replayed effects t t' := by
  induction effects generalizing t with
  | nil =>
    obtain rfl := Option.some.inj h
    exact Replayed.refl t
  | cons e effects ih =>
    rw [List.foldlM_cons, Option.bind_eq_bind, Option.bind_eq_some_iff] at h
    obtain ⟨t₁, hfirst, hrest⟩ := h
    exact (replayed_apply hfirst).trans (ih hrest)

theorem replayed_replay {effects : Option (List Effect)} {t t' : PluginTables}
    (h : replay t effects = some t') : Replayed (effects.getD []) t t' := by
  obtain ⟨own, rfl, h⟩ := Option.bind_eq_some_iff.1 h
  exact replayed_foldlM h

/-! ## Commands -/

/-- The tables of the console. -/
def Console.tables (c : Console) : PluginTables := ⟨c.monitorMsglist.getD [], c.daemon.mlist⟩

theorem getD_created {α : Type} (list : Option (List α)) (entries : List α) :
    (Console.created list entries).getD [] = entries := by
  unfold Console.created
  split
  · rename_i h
    rw [Bool.and_eq_true, List.isEmpty_iff] at h
    exact h.2.symm
  · rfl

theorem tables_put (c : Console) (s : Plugins) (units : Bool) :
    (c.put s units).tables = s.toPluginTables := by
  simp [Console.tables, Console.put, getD_created]

/-- The tree of a file has a list, and its effects are in the history. -/
def TreeRead (hist : List Effect) (ppu : PluginUnit) : Prop :=
  (cJSONGetObjectItem ppu.root (bytes "list")).isSome = true ∧
    ∃ junk own, rootEffects junk ppu.root = some own ∧ own ⊆ hist

/-- What a command that reads trees does to the console: the effects are replayed, there is no list of
files only if there was none and nothing has been read, and the trees of the files are those of before
or among what has been read. -/
structure Console.Reads (c : Console) (effects : List Effect) (c' : Console) : Prop where
  tables : Replayed effects c.tables c'.tables
  unread : c'.pluginConfigJsonlist = none → c.pluginConfigJsonlist = none ∧ effects = []
  trees : ∀ ppu ∈ c'.pluginConfigJsonlist.getD [], TreeRead effects ppu ∨
    ∃ ppu' ∈ c.pluginConfigJsonlist.getD [], ppu'.root = ppu.root

theorem Console.Reads.of_tables {c c' : Console} (htables : c'.tables = c.tables)
    (hunits : c'.pluginConfigJsonlist = c.pluginConfigJsonlist) : c.Reads [] c' := by
  refine ⟨htables ▸ Replayed.refl c.tables, fun h => ⟨hunits ▸ h, rfl⟩, ?_⟩
  rw [hunits]
  exact fun ppu hppu => Or.inr ⟨ppu, hppu, rfl⟩

theorem TreeRead.mono {hist more : List Effect} {ppu : PluginUnit} (h : TreeRead hist ppu)
    (hsub : hist ⊆ more) : TreeRead more ppu := by
  obtain ⟨hlist, junk, own, hown, hin⟩ := h
  exact ⟨hlist, junk, own, hown, fun _ he => hsub (hin he)⟩

theorem TreeRead.congr {hist : List Effect} {ppu ppu' : PluginUnit} (h : TreeRead hist ppu)
    (hroot : ppu'.root = ppu.root) : TreeRead hist ppu' := by
  unfold TreeRead at h ⊢
  rwa [hroot]

theorem Console.Reads.trans {c c' c'' : Console} {first second : List Effect}
    (h : c.Reads first c') (h' : c'.Reads second c'') : c.Reads (first ++ second) c'' := by
  refine ⟨h.tables.trans h'.tables, fun hnone => ?_, fun ppu hppu => ?_⟩
  · obtain ⟨hmid, rfl⟩ := h'.unread hnone
    obtain ⟨hnone', rfl⟩ := h.unread hmid
    exact ⟨hnone', rfl⟩
  · rcases h'.trees ppu hppu with hread | ⟨ppu', hppu', hroot⟩
    · exact Or.inl (hread.mono (List.subset_append_right first second))
    · rcases h.trees ppu' hppu' with hread | ⟨ppu'', hppu'', hroot'⟩
      · exact Or.inl ((hread.congr hroot.symm).mono (List.subset_append_left first second))
      · exact Or.inr ⟨ppu'', hppu'', hroot'.trans hroot⟩

theorem rootEffects_of_parse {junk : ℕ → ℕ → PluginBroadcatType} {root : CJson} {t t' : PluginTables}
    {parsed : Bool} (h : ipcdPluginParseRoot junk root t = some (parsed, t')) :
    ∃ own, rootEffects junk root = some own ∧ replay t (some own) = some t' := by
  have hreplay := ipcdPluginParseRoot_eq junk root t
  rw [h, Option.map_some] at hreplay
  obtain ⟨own, hown, hrun⟩ := Option.bind_eq_some_iff.1 hreplay.symm
  exact ⟨own, hown, hrun⟩

/-- A tree that is kept has a list. -/
theorem list_of_parse {junk : ℕ → ℕ → PluginBroadcatType} {root : CJson} {t t' : PluginTables}
    (h : ipcdPluginParseRoot junk root t = some (true, t')) :
    (cJSONGetObjectItem root (bytes "list")).isSome = true := by
  unfold ipcdPluginParseRoot at h
  cases hlist : cJSONGetObjectItem root (bytes "list") with
  | none => simp [hlist] at h
  | some rootList => rfl

section Commands

variable {fs : FileSystem} {c c' : Console}

theorem pluginAddFile_reads {junk : ℕ → ℕ → PluginBroadcatType} {filename : CStr}
    (h : pluginAddFile fs junk filename c = some c') :
    c.Reads (fileEffects fs junk filename c) c' := by
  unfold pluginAddFile at h
  unfold fileEffects
  cases hpath : fs.realpath filename with
  | none =>
    rw [hpath] at h
    obtain rfl := Option.some.inj h
    exact Console.Reads.of_tables rfl rfl
  | some path =>
    rw [hpath] at h
    obtain ⟨s, hs, rfl⟩ := Option.map_eq_some_iff.1 h
    have hlist : ∀ parsed : Bool, parsed = false →
        (c.put c.plugins (c.pluginConfigJsonlist.isSome || parsed)).pluginConfigJsonlist =
          c.pluginConfigJsonlist := by
      rintro parsed rfl
      cases hc : c.pluginConfigJsonlist <;> simp [Console.put, Console.plugins, hc]
    unfold ipcdPluginMonitorAddFile at hs
    dsimp only
    by_cases hload : c.loaded path = true
    · rw [if_pos (show (c.plugins.pluginConfigJsonlist.any fun ppu => ppu.filename == path) = true
        from hload)] at hs
      obtain rfl := Option.some.inj hs
      rw [if_pos hload]
      exact Console.Reads.of_tables (tables_put _ _ _) (hlist _ (by simp [hload]))
    · rw [if_neg (show ¬ (c.plugins.pluginConfigJsonlist.any fun ppu => ppu.filename == path) = true
        from hload)] at hs
      rw [if_neg hload]
      cases hfile : fs.files path with
      | none =>
        rw [hfile] at hs
        obtain rfl := Option.some.inj hs
        exact Console.Reads.of_tables (tables_put _ _ _) (hlist _ (by simp))
      | some root =>
        rw [hfile] at hs
        obtain ⟨⟨parsed, t⟩, hparse, hs⟩ := Option.bind_eq_some_iff.1 hs
        obtain ⟨own, hown, hrun⟩ := rootEffects_of_parse hparse
        dsimp only at hs ⊢
        rw [hown]
        have hsome : (c.pluginConfigJsonlist.isSome || (!c.loaded path && (some root).isSome)) =
            true := by simp [hload]
        rw [hsome]
        have htables : s.toPluginTables = t := by
          split at hs <;> exact (congrArg Plugins.toPluginTables (Option.some.inj hs)).symm
        refine ⟨?_, fun hnone => ?_, fun ppu hppu => ?_⟩
        · rw [tables_put, htables]
          exact replayed_replay hrun
        · simp [Console.put] at hnone
        · replace hppu : ppu ∈ s.pluginConfigJsonlist := hppu
          split at hs
          · rename_i hparsed
            obtain rfl := Option.some.inj hs
            rcases List.mem_append.1 hppu with hppu | hppu
            · exact Or.inr ⟨ppu, hppu, rfl⟩
            · rw [List.mem_singleton.1 hppu]
              rw [hparsed] at hparse
              exact Or.inl ⟨list_of_parse hparse, junk, own, hown, fun _ he => he⟩
          · obtain rfl := Option.some.inj hs
            exact Or.inr ⟨ppu, hppu, rfl⟩

theorem pluginAddFiles_reads {junk : ℕ → ℕ → ℕ → PluginBroadcatType} {j : ℕ} {names : List CStr}
    (h : pluginAddFiles fs junk j names c = some c') :
    c.Reads (filesEffects fs junk j names c) c' := by
  induction names generalizing j c with
  | nil =>
    obtain rfl := Option.some.inj h
    exact Console.Reads.of_tables rfl rfl
  | cons name names ih =>
    obtain ⟨c₁, hfirst, hrest⟩ := Option.bind_eq_some_iff.1 h
    rw [filesEffects, hfirst]
    exact (pluginAddFile_reads hfirst).trans (ih hrest)

theorem trees_refreshUnits {files : Files} {junk : ℕ → ℕ → ℕ → PluginBroadcatType} {k : ℕ}
    {units : List PluginUnit} {t : PluginTables} {s : Plugins}
    (h : refreshUnits files junk k units t = some s) :
    ∃ effects, refreshEffects files junk k (units.map PluginUnit.filename) = some effects ∧
      ∀ ppu ∈ s.pluginConfigJsonlist, TreeRead effects ppu ∨
        ∃ ppu' ∈ units, ppu'.root = ppu.root := by
  induction units generalizing k t s with
  | nil =>
    obtain rfl := Option.some.inj h
    exact ⟨[], rfl, by simp⟩
  | cons ppu units ih =>
    rw [refreshUnits] at h
    rw [List.map_cons, refreshEffects]
    cases hfile : files ppu.filename with
    | none =>
      rw [hfile] at h
      obtain rfl := Option.some.inj h
      exact ⟨[], rfl, fun ppu' hppu' => Or.inr ⟨ppu', hppu', rfl⟩⟩
    | some root =>
      rw [hfile] at h
      obtain ⟨⟨parsed, t'⟩, hparse, h⟩ := Option.bind_eq_some_iff.1 h
      obtain ⟨s', hrest, h⟩ := Option.bind_eq_some_iff.1 h
      obtain rfl := Option.some.inj h
      obtain ⟨own, hown, -⟩ := rootEffects_of_parse hparse
      obtain ⟨more, hmore, htrees⟩ := ih hrest
      refine ⟨own ++ more, by simp [hown, hmore], fun ppu' hppu' => ?_⟩
      rcases List.mem_cons.1 hppu' with rfl | hppu'
      · cases parsed with
        | true =>
          exact Or.inl ⟨list_of_parse hparse, junk k, own, hown, List.subset_append_left own more⟩
        | false => exact Or.inr ⟨ppu, by simp, rfl⟩
      · rcases htrees ppu' hppu' with hread | ⟨ppu'', hppu'', hroot⟩
        · exact Or.inl (hread.mono (List.subset_append_right own more))
        · exact Or.inr ⟨ppu'', List.mem_cons_of_mem ppu hppu'', hroot⟩

theorem pluginRefresh_reads {junk : ℕ → ℕ → ℕ → PluginBroadcatType}
    (h : pluginRefresh fs junk c = some c') :
    c.Reads ((refreshEffects fs.files junk 0 c.plugins.filenames).getD []) c' := by
  obtain ⟨s, hs, rfl⟩ := Option.map_eq_some_iff.1 h
  have hreplay := @ipcdPluginRefresh_eq fs.files junk c.plugins
  rw [hs, Option.map_some] at hreplay
  obtain ⟨effects, heffects, htrees⟩ := trees_refreshUnits hs
  refine ⟨?_, fun hnone => ?_, fun ppu hppu => ?_⟩
  · rw [tables_put]
    exact replayed_replay hreplay.symm
  · cases hc : c.pluginConfigJsonlist with
    | none => simp [Plugins.filenames, Console.plugins, hc, refreshEffects]
    | some units => simp [Console.put, hc] at hnone
  · have hunits : ppu ∈ s.pluginConfigJsonlist := by
      cases hc : c.pluginConfigJsonlist with
      | none => simp [Console.put, hc] at hppu
      | some units => simpa [Console.put, hc] using hppu
    rw [Plugins.filenames, heffects]
    exact htrees ppu hunits

/-- **A command replays what it reads**, unless it is `CLEAN`. -/
theorem ipcctlAnalysisCore_reads {cmd : Command} (hclean : cmd.isClean = false)
    (h : ipcctlAnalysisCore cmd c = some c') : c.Reads (cmd.effects c) c' := by
  unfold Command.isClean at hclean
  unfold ipcctlAnalysisCore at h
  unfold Command.effects
  cases hicp : cmd.icp with
  | plugin icpp =>
    rw [hicp] at h hclean
    cases icpp with
    | file path => exact pluginAddFile_reads h
    | dir path =>
      change ipcdPluginMonitorAddDir cmd.fs cmd.junk path c = some c' at h
      unfold ipcdPluginMonitorAddDir at h
      dsimp only
      cases hpath : cmd.fs.realpath path with
      | none =>
        rw [hpath] at h
        obtain rfl := Option.some.inj h
        exact Console.Reads.of_tables rfl rfl
      | some path' =>
        rw [hpath] at h
        exact pluginAddFiles_reads h
    | refresh => exact pluginRefresh_reads h
    | clean => cases hclean
    | _ =>
      obtain rfl := Option.some.inj h
      exact Console.Reads.of_tables rfl rfl
  | _ =>
    rw [hicp] at h
    obtain rfl := Option.some.inj h
    exact Console.Reads.of_tables rfl rfl

end Commands

/-! ## Steps of the daemon -/

/-- An update that leaves the name and the masks of a member alone. -/
theorem masked_modifyFirst {p : MlistMember → Bool} {f : MlistMember → MlistMember}
    {mlist : List MlistMember} {m' : MlistMember} (hf : ∀ m, Masked [] m (f m))
    (h : m' ∈ modifyFirst p f mlist) : ∃ m ∈ mlist, Masked [] m m' := by
  rcases eq_or_mem_of_mem_modifyFirst h with hm | ⟨m, hm, rfl⟩
  · exact ⟨m', hm, Masked.refl m'⟩
  · exact ⟨m, hm, hf m⟩

theorem Masked.of_eq {m m' : MlistMember} (hident : m'.ident = m.ident)
    (hsender : m'.maskSender = m.maskSender) (hreceiver : m'.maskReceiver = m.maskReceiver) :
    Masked [] m m' := by
  refine ⟨hident, fun side => ?_⟩
  cases side with
  | sender => simpa [MlistMember.masks, masksFor] using hsender
  | receiver => simpa [MlistMember.masks, masksFor] using hreceiver

/-- The member was there before the step, with the same masks, or has been taken in by it and has
none. -/
def KeptOrJoined (d : Daemon) (a : DaemonAct) (m' : MlistMember) : Prop :=
  (∃ m ∈ d.mlist, Masked [] m m') ∨ (joinedBy d a = some m'.ident ∧ ∀ side, m'.masks side = [])

/-- A member after the receive thread's step. -/
theorem ipcdAnalysisCore_masks {stale : MlistMember → MlistMember} {addr : ℕ} {pkt : IpcPacket}
    {d : Daemon} {m' : MlistMember} (h : m' ∈ (ipcdAnalysisCore stale addr pkt d).1.mlist) :
    KeptOrJoined d (.recv stale addr pkt) m' := by
  obtain ⟨sendPid, body⟩ := pkt
  have hsame : m' ∈ d.mlist → KeptOrJoined d (.recv stale addr ⟨sendPid, body⟩) m' :=
    fun hm => Or.inl ⟨m', hm, Masked.refl m'⟩
  have hupdate : ∀ {p : MlistMember → Bool} {f : MlistMember → MlistMember},
      m' ∈ modifyFirst p f d.mlist → (∀ m, Masked [] m (f m)) →
      KeptOrJoined d (.recv stale addr ⟨sendPid, body⟩) m' :=
    fun hm hf => Or.inl (masked_modifyFirst hf hm)
  cases body with
  | apiRegister info => exact hupdate h fun _ => .of_eq rfl rfl rfl
  | msgRegister info => exact hupdate h fun _ => .of_eq rfl rfl rfl
  | apiUnregister info => exact hupdate h fun _ => .of_eq rfl rfl rfl
  | msgUnregister info => exact hupdate h fun _ => .of_eq rfl rfl rfl
  | daemonCmd info => exact hupdate h fun _ => .of_eq rfl rfl rfl
  | live info => exact hupdate h fun _ => .of_eq rfl rfl rfl
  | exit info => exact hsame ((ipcdMlistRemoveViaPid_sublist _ d.mlist).subset h)
  | hangup info => exact hsame ((ipcdMlistRemoveViaPid_sublist _ d.mlist).subset h)
  | join info =>
    rw [ipcdAnalysisCore_join_mlist] at h
    rcases ipcdJoin_cases stale info addr d.mlist with ⟨l, hl, he⟩ | ⟨l, hl, he⟩
    · rw [he] at h
      exact hsame (hl.subset h)
    · rw [he, List.mem_append] at h
      rcases h with h | h
      · exact hsame (hl.subset h)
      · -- the member that has just joined
        rw [List.mem_singleton.1 h]
        exact Or.inr ⟨by simp [joinedBy, he], fun side => by cases side <;> rfl⟩
  | apiCall api =>
    simp only [ipcdAnalysisCore, ipcdApiCall] at h
    split at h
    · exact hsame h
    · exact hupdate h fun _ => .of_eq rfl rfl rfl
  | msgSend msg =>
    simp only [ipcdAnalysisCore, ipcdMsgSend] at h
    split at h
    · exact hsame h
    · exact hupdate h fun _ => .of_eq rfl rfl rfl
  | apiRuntime rt =>
    simp only [ipcdAnalysisCore] at h
    split at h
    · rw [ipcdApiFinish_mlist] at h
      exact hupdate h fun _ => .of_eq rfl rfl rfl
    · exact hsame h
  | msgRuntime rt =>
    simp only [ipcdAnalysisCore] at h
    split at h
    · exact hupdate h fun _ => .of_eq rfl rfl rfl
    · exact hsame h
  | log info => exact hsame h
  | other => exact hsame h

/-- **A member after a step of the daemon was there before, with the same masks, or has just been
taken in and has none.** -/
theorem Daemon.step_masks {d d' : Daemon} {a : DaemonAct} {out : List Send}
    (h : d.step a = some (d', out)) {m' : MlistMember} (hm' : m' ∈ d'.mlist) :
    KeptOrJoined d a m' := by
  by_cases hrecv : ∃ stale addr pkt, a = .recv stale addr pkt
  · obtain ⟨stale, addr, pkt, rfl⟩ := hrecv
    have he : ipcdAnalysisCore stale addr pkt d = (d', out) := Option.some.inj h
    exact ipcdAnalysisCore_masks (by rw [he]; exact hm')
  · by_cases hlive : a = .liveSweep
    · subst hlive
      cases h
      obtain ⟨m, hm, rfl⟩ := List.mem_map.1 hm'
      refine Or.inl ⟨m, hm, ?_⟩
      unfold sweepMember
      split <;> exact .of_eq rfl rfl rfl
    · have hmlist := Daemon.step_mlist_eq h (fun stale addr pkt he => hrecv ⟨stale, addr, pkt, he⟩)
        hlive
      rw [hmlist] at hm'
      exact Or.inl ⟨m', hm', Masked.refl m'⟩

/-! ## Runs -/

/-- The tables and the files are what the history says. -/
structure FromHistory (c : Console) (hist : PluginRecord) : Prop where
  /-- The rules have been put into the table one after the other. -/
  rules : c.monitorMsglist.getD [] = (rulesOf hist.read).foldl Rule.load []
  /-- The masks of a member are those that have been read for it since its join. -/
  masks : ∀ m ∈ c.daemon.mlist, ∃ n, (m.ident, n) ∈ hist.joins ∧ n ≤ hist.read.length ∧
    ∀ side, m.masks side = masksFor side m (hist.read.drop n)
  /-- The trees that the view of the files shows have been read. -/
  trees : ∀ ppu ∈ c.pluginConfigJsonlist.getD [], TreeRead hist.read ppu
  /-- Where there is no list of files, no mask has been read. -/
  unmasked : c.pluginConfigJsonlist = none → ∀ m ∈ c.daemon.mlist, ∀ side, m.masks side = []

theorem fromHistory_init : FromHistory {} {} :=
  ⟨rfl, by simp, by simp, by simp⟩

/-- A step of the threads that serve the members. -/
theorem FromHistory.daemon_step {c : Console} {hist : PluginRecord} (h : FromHistory c hist)
    {a : DaemonAct} {d : Daemon} {out : List Send} (hstep : c.daemon.step a = some (d, out)) :
    FromHistory { c with daemon := d } (hist.record c (.inl a)) := by
  refine ⟨h.rules, fun m hm => ?_, h.trees, fun hnone m hm side => ?_⟩
  · rcases Daemon.step_masks hstep hm with ⟨m', hm', hsame⟩ | ⟨hjoined, hfresh⟩
    · obtain ⟨n, hjoin, hle, hmasks⟩ := h.masks m' hm'
      refine ⟨n, List.mem_append_left _ (hsame.1 ▸ hjoin), hle, fun side => ?_⟩
      rw [hsame.2, hmasks, masksFor_congr hsame.pname_eq]
      exact List.append_nil _
    · refine ⟨hist.read.length, List.mem_append_right _ ?_, le_rfl, fun side => ?_⟩
      · simp [hjoined]
      · rw [hfresh]
        show [] = masksFor side m (hist.read.drop hist.read.length)
        rw [List.drop_length]
        rfl
  · rcases Daemon.step_masks hstep hm with ⟨m', hm', hsame⟩ | ⟨-, hfresh⟩
    · rw [hsame.2, h.unmasked hnone m' hm']
      rfl
    · exact hfresh side

/-- A member after a command, and what it was before. -/
theorem Replayed.mem_right {effects : List Effect} {t t' : PluginTables}
    (h : Replayed effects t t') {m' : MlistMember} (hm' : m' ∈ t'.mlist) :
    ∃ m ∈ t.mlist, Masked effects m m' := by
  obtain ⟨i, hi, rfl⟩ := List.getElem_of_mem hm'
  have hlen := h.masks.length_eq
  exact ⟨t.mlist[i], List.getElem_mem _, h.masks.get (hlen ▸ hi) hi⟩

/-- A command that reads trees. -/
theorem FromHistory.reads {c c' : Console} {hist : PluginRecord} {effects : List Effect}
    (h : FromHistory c hist) (hreads : c.Reads effects c') :
    FromHistory c' { hist with read := hist.read ++ effects } := by
  refine ⟨?_, fun m hm => ?_, fun ppu hppu => ?_, fun hnone m hm side => ?_⟩
  · rw [rulesOf_append, List.foldl_append, ← h.rules]
    exact hreads.tables.rules
  · obtain ⟨m', hm', hmasked⟩ := hreads.tables.mem_right hm
    obtain ⟨n, hjoin, hle, hmasks⟩ := h.masks m' hm'
    refine ⟨n, hmasked.1 ▸ hjoin, ?_, fun side => ?_⟩
    · rw [List.length_append]
      omega
    · rw [hmasked.2, hmasks, masksFor_congr hmasked.pname_eq, List.drop_append_of_le_length hle,
        masksFor_append]
  · rcases hreads.trees ppu hppu with hread | ⟨ppu', hppu', hroot⟩
    · exact hread.mono (List.subset_append_right hist.read effects)
    · exact ((h.trees ppu' hppu').congr hroot.symm).mono (List.subset_append_left hist.read effects)
  · obtain ⟨hnone', rfl⟩ := hreads.unread hnone
    obtain ⟨m', hm', hmasked⟩ := hreads.tables.mem_right hm
    rw [hmasked.2, h.unmasked hnone' m' hm']
    rfl

/-- `CLEAN`: the members have joined before everything that will be read. -/
theorem FromHistory.clean {c : Console} {hist : PluginRecord} (h : FromHistory c hist) :
    FromHistory (ipcdPluginMonitorClean (ipcdPluginMonitorMsgClean c))
      { read := [], joins := hist.joins.map fun x => (x.1, 0) } := by
  have hjoins : ∀ m ∈ c.daemon.mlist, (m.ident, 0) ∈ hist.joins.map fun x => (x.1, 0) := by
    intro m hm
    obtain ⟨n, hjoin, -⟩ := h.masks m hm
    exact List.mem_map.2 ⟨_, hjoin, rfl⟩
  unfold ipcdPluginMonitorClean
  split
  · rename_i hnone
    have hmasks : ∀ m ∈ c.daemon.mlist, ∀ side, m.masks side = [] := h.unmasked hnone
    exact ⟨rfl, fun m hm => ⟨0, hjoins m hm, le_rfl, hmasks m hm⟩,
      by simp [ipcdPluginMonitorMsgClean, show c.pluginConfigJsonlist = none from hnone],
      fun _ => hmasks⟩
  · have hmasks : ∀ m ∈ c.daemon.unmasked.mlist, ∀ side, m.masks side = [] := by
      intro m hm side
      obtain ⟨m', -, rfl⟩ := List.mem_map.1 hm
      cases side <;> rfl
    refine ⟨rfl, fun m hm => ⟨0, ?_, le_rfl, hmasks m hm⟩, by simp, fun _ => hmasks⟩
    obtain ⟨m', hm', rfl⟩ := List.mem_map.1 hm
    exact hjoins m' hm'

/-- Every run keeps the tables in step with the history. -/
theorem fromHistory_run {labels : List (DaemonAct ⊕ Command)} {c : Console} {hist : PluginRecord}
    {out : List Send} (hrun : recordedConsole.run ({}, {}) labels = some ((c, hist), out)) :
    FromHistory c hist := by
  refine Machine.run_invariant (I := fun p : Console × PluginRecord => FromHistory p.1 p.2)
    (fun _ => True) ?_ (fun _ _ => trivial) fromHistory_init hrun
  rintro ⟨c, hist⟩ l ⟨c', hist'⟩ out h - hstep
  obtain ⟨⟨c'', out'⟩, hconsole, heq⟩ := Option.map_eq_some_iff.1 hstep
  cases heq
  cases l with
  | inl a =>
    obtain ⟨⟨d, out''⟩, hdaemon, heq⟩ := Option.map_eq_some_iff.1 hconsole
    cases heq
    exact h.daemon_step hdaemon
  | inr cmd =>
    obtain ⟨c₁, hcmd, heq⟩ := Option.map_eq_some_iff.1 hconsole
    cases heq
    show FromHistory c' (if cmd.isClean then _ else _)
    split
    · rename_i hclean
      have hcleaned : c' = ipcdPluginMonitorClean (ipcdPluginMonitorMsgClean c) := by
        unfold Command.isClean at hclean
        unfold ipcctlAnalysisCore at hcmd
        split at hclean
        · rename_i hicp
          rw [hicp] at hcmd
          exact (Option.some.inj hcmd).symm
        · cases hclean
      exact hcleaned ▸ h.clean
    · rename_i hclean
      exact h.reads (ipcctlAnalysisCore_reads (by simpa using hclean) hcmd)

/-- **What the plugin tables hold after any run.**  Where the rules fit into their fields, an answer is
in the table exactly if it has been read since the last `CLEAN`, and it is in it once; the masks of a
member are those that have been read for it since a join of its own, or since that `CLEAN` if the join
is older; and every answer of a file that the view shows is served. -/
theorem plugin_tables {labels : List (DaemonAct ⊕ Command)} {c : Console} {hist : PluginRecord}
    {out : List Send} (hrun : recordedConsole.run ({}, {}) labels = some ((c, hist), out))
    (hshort : ∀ r ∈ rulesOf hist.read, r.Short) :
    (∀ monitor, (pairs (c.monitorMsglist.getD []) monitor).Nodup ∧
      ∀ u, u ∈ pairs (c.monitorMsglist.getD []) monitor ↔
        ∃ r ∈ rulesOf hist.read, r.monitor = monitor ∧ u = r.unit) ∧
      (∀ m ∈ c.daemon.mlist, ∃ n, (m.ident, n) ∈ hist.joins ∧ n ≤ hist.read.length ∧
        ∀ side, m.masks side = masksFor side m (hist.read.drop n)) ∧
      ∀ ppu ∈ c.pluginConfigJsonlist.getD [], ∃ junk own, rootEffects junk ppu.root = some own ∧
        ∀ r, Effect.rule r ∈ own → r.unit ∈ pairs (c.monitorMsglist.getD []) r.monitor := by
  have h := fromHistory_run hrun
  have htable : RuleTable (c.monitorMsglist.getD []) := h.rules ▸ ruleTable_nil.foldl hshort
  have hmem : ∀ monitor u, u ∈ pairs (c.monitorMsglist.getD []) monitor ↔
      ∃ r ∈ rulesOf hist.read, r.monitor = monitor ∧ u = r.unit := by
    intro monitor u
    rw [h.rules, mem_pairs_foldl ruleTable_nil hshort]
    simp [pairs]
  refine ⟨fun monitor => ⟨htable.nodup_pairs monitor, hmem monitor⟩, h.masks, fun ppu hppu => ?_⟩
  obtain ⟨-, junk, own, hown, hin⟩ := h.trees ppu hppu
  exact ⟨junk, own, hown, fun r hr => (hmem _ _).2 ⟨r, mem_rulesOf.2 (hin hr), rfl, rfl⟩⟩

/-- The answer of the file is in the table, and the mask that has been read after the join is in the
masks of the member. -/
theorem plugin_tables_sample : ∃ c hist out,
    recordedConsole.run ({}, {}) sampleServed = some ((c, hist), out) ∧
    (⟨bytes "ls", .shell⟩ : BroadcastUnit) ∈ pairs (c.monitorMsglist.getD []) (bytes "alarm") ∧
    ∀ m ∈ c.daemon.mlist, ∃ n, (m.ident, n) ∈ hist.joins ∧ n ≤ hist.read.length ∧
      ∀ side, m.masks side = masksFor side m (hist.read.drop n) := by
  obtain ⟨⟨⟨c, hist⟩, out⟩, hrun, hread⟩ : ∃ p : (Console × PluginRecord) × List Send,
      recordedConsole.run ({}, {}) sampleServed = some p ∧
      p.1.2.read = [.rule ⟨bytes "alarm", bytes "ls", .shell⟩,
        .mask .sender (some (bytes "a")) (some (bytes "m"))] := ⟨_, rfl, rfl⟩
  have hrules : rulesOf hist.read = [⟨bytes "alarm", bytes "ls", .shell⟩] := by
    rw [show hist.read = _ from hread]
    rfl
  have hshort : ∀ r ∈ rulesOf hist.read, r.Short := by
    rw [hrules]
    decide
  obtain ⟨hmem, hmasks, -⟩ := plugin_tables hrun hshort
  refine ⟨c, hist, out, hrun, ((hmem (bytes "alarm")).2 _).2 ?_, hmasks⟩
  exact ⟨⟨bytes "alarm", bytes "ls", .shell⟩, by rw [hrules]; decide, rfl, rfl⟩

end EasyIpc
