import EasyIpc.PluginEffects

/-!
# Reading the plugins once more

`ipcd_plugin_refresh` puts every file through the loaders that read it first.  The insertion of a
rule looks for the rule; the attachment of a mask looks for nothing.

* `Effect.Idle` — the rule is known, or the mask is for no member: `Effect.apply_eq_self_iff`.  As no
  effect takes anything away, a refresh is idle exactly when each of its effects is.
* `Loaded` — what can be reached by reading files whose paths and texts fit into their fields;
  there every rule is known (`Loaded.units`).
-/

namespace EasyIpc

open Printf FirstMatch Replay

/-! ## Idle effects -/

/-- The scan for the name of the rule stops at an entry that has its answer. -/
def Rule.Known (table : List MonitorMsg) (r : Rule) : Prop :=
  ∃ mm, table.reverse.find? (isMonitor r.monitor) = some mm ∧ r.unit ∈ mm.broadcastMsglist

/-- The rule is known, or the mask is for no member. -/
def Effect.Idle (t : PluginTables) : Effect → Prop
  | .rule r => r.Known t.monitorMsglist
  | .mask _ pname _ => ∀ m ∈ t.mlist, ∃ p, pname = some p ∧ ¬ maskCovers p m

theorem load_eq_self_iff {table : List MonitorMsg} {r : Rule} :
    r.load table = table ↔ r.Known table := by
  have hfound : (table.reverse.find? (isMonitor r.monitor)).isSome =
      table.any (isMonitor r.monitor) := by
    rw [List.isSome_find?, List.any_reverse]
  rw [Rule.load, ipcdPluginMonitorMsgInsert, Rule.Known]
  by_cases hany : table.any (isMonitor r.monitor)
  · obtain ⟨mm, hmm⟩ := Option.isSome_iff_exists.1 (hfound.trans hany)
    have hback : (modifyFirst (isMonitor r.monitor) (insertUnit r.broadcast r.type)
          table.reverse).reverse = table ↔
        modifyFirst (isMonitor r.monitor) (insertUnit r.broadcast r.type) table.reverse =
          table.reverse := List.reverse_eq_iff
    rw [if_pos hany, hback, modifyFirst_eq_self_iff]
    simp [hmm, insertUnit_eq_self_iff]
  · have hnone : table.reverse.find? (isMonitor r.monitor) = none := by
      rw [← Option.not_isSome_iff_eq_none, hfound]
      exact hany
    rw [if_neg hany, hnone]
    simp

theorem maskMember_eq_self_iff {side : MaskSide} {pname mname : Option CStr} {m : MlistMember} :
    maskMember side pname mname m = some m ↔ ∃ p, pname = some p ∧ ¬ maskCovers p m := by
  cases pname with
  | none => simp [maskMember]
  | some p =>
    simp only [maskMember, Option.bind_eq_bind, Option.bind_some, Option.some.injEq,
      exists_eq_left']
    by_cases hp : maskCovers p m
    · rw [if_pos hp]
      refine ⟨fun h => ?_, fun h => absurd hp h⟩
      obtain ⟨name, -, h⟩ := Option.bind_eq_some_iff.1 h
      have hlen := congrArg (fun m => m.maskSender.length + m.maskReceiver.length)
        (Option.some.inj h)
      cases side <;> simp [attachMask] at hlen
    · rw [if_neg hp]
      exact ⟨fun _ => hp, fun _ => rfl⟩

theorem Effect.apply_eq_self_iff {t : PluginTables} {e : Effect} :
    e.apply t = some t ↔ e.Idle t := by
  obtain ⟨monitorMsglist, mlist⟩ := t
  cases e with
  | rule r =>
    rw [Effect.apply, Effect.Idle, ← load_eq_self_iff]
    simp
  | mask side pname mname =>
    have hmap : (Effect.mask side pname mname).apply ⟨monitorMsglist, mlist⟩ =
        some ⟨monitorMsglist, mlist⟩ ↔ mlist.mapM (maskMember side pname mname) = some mlist := by
      simp only [Effect.apply, Option.bind_eq_bind]
      cases mlist.mapM (maskMember side pname mname) <;> simp
    rw [hmap, mapM_eq_self_iff, Effect.Idle]
    simp only [maskMember_eq_self_iff]

/-- The files that a refresh reads have nothing but idle effects. -/
def IdleRefresh (files : Files) (junk : ℕ → ℕ → ℕ → PluginBroadcatType) (t : PluginTables)
    (filenames : List CStr) : Prop :=
  ∃ effects, refreshEffects files junk 0 filenames = some effects ∧ ∀ e ∈ effects, e.Idle t

/-- One refresh leaves the tables as they are exactly when all it does is idle. -/
theorem ipcdPluginRefresh_eq_self_iff {files : Files} {junk : ℕ → ℕ → ℕ → PluginBroadcatType}
    {s : Plugins} :
    (ipcdPluginRefresh files junk s).map Plugins.toPluginTables = some s.toPluginTables ↔
      IdleRefresh files junk s.toPluginTables s.filenames := by
  rw [ipcdPluginRefresh_eq, IdleRefresh, replay, Option.bind_eq_some_iff]
  simp only [growing_apply.foldlM_eq_self_iff, Effect.apply_eq_self_iff]

/-- A number of refreshes; `junk n` is what the `n`th finds in its variables. -/
def refreshes (files : Files) (junk : ℕ → ℕ → ℕ → ℕ → PluginBroadcatType) :
    ℕ → Plugins → Option Plugins
  | 0, s => some s
  | n + 1, s => (refreshes files junk n s).bind (ipcdPluginRefresh files (junk n))

/-- Any number of refreshes leaves the tables as they are. -/
def Unchanged (files : Files) (junk : ℕ → ℕ → ℕ → ℕ → PluginBroadcatType) (s : Plugins) : Prop :=
  ∀ n, (refreshes files junk n s).map Plugins.toPluginTables = some s.toPluginTables

theorem filenames_refreshes {files : Files} {junk : ℕ → ℕ → ℕ → ℕ → PluginBroadcatType} {n : ℕ}
    {s s' : Plugins} (h : refreshes files junk n s = some s') : s'.filenames = s.filenames := by
  induction n generalizing s' with
  | zero =>
    obtain rfl := Option.some.inj h
    rfl
  | succ n ih =>
    obtain ⟨t, hn, hlast⟩ := Option.bind_eq_some_iff.1 h
    exact (filenames_ipcdPluginRefresh hlast).trans (ih hn)

theorem unchanged_iff {files : Files} {junk : ℕ → ℕ → ℕ → ℕ → PluginBroadcatType} {s : Plugins} :
    Unchanged files junk s ↔ ∀ n, IdleRefresh files (junk n) s.toPluginTables s.filenames := by
  -- one more refresh, from tables that are those of `s`
  have hstep : ∀ {n t}, refreshes files junk n s = some t → t.toPluginTables = s.toPluginTables →
      ((refreshes files junk (n + 1) s).map Plugins.toPluginTables = some s.toPluginTables ↔
        IdleRefresh files (junk n) s.toPluginTables s.filenames) := by
    intro n t hn htables
    rw [refreshes, hn, Option.bind_some, ← htables, ← filenames_refreshes hn]
    exact ipcdPluginRefresh_eq_self_iff
  refine ⟨fun h n => ?_, fun h n => ?_⟩
  · obtain ⟨t, hn, htables⟩ := Option.map_eq_some_iff.1 (h n)
    exact (hstep hn htables).1 (h (n + 1))
  · induction n with
    | zero => rfl
    | succ n ih =>
      obtain ⟨t, hn, htables⟩ := Option.map_eq_some_iff.1 ih
      exact (hstep hn htables).2 (h n)

/-! ## Loaded files -/

/-- A file whose effects do not depend on what the variables hold, and whose rules fit into their
fields. -/
def Plain (root : CJson) : Prop :=
  ∃ effects, (∀ junk, rootEffects junk root = some effects) ∧
    ∀ r, Effect.rule r ∈ effects → r.Short

/-- What is reached from empty tables by reading plain files under names that fit into their
field. -/
inductive Loaded (files : Files) : Plugins → Prop
  | start (mlist : List MlistMember) : Loaded files ⟨⟨[], mlist⟩, []⟩
  | add {s s' : Plugins} (junk : ℕ → ℕ → PluginBroadcatType) (path : CStr) :
      Loaded files s → path.length < ipcLogSavePathMaxLens →
      (∀ root, files path = some root → Plain root) →
      ipcdPluginMonitorAddFile files junk path s = some s' → Loaded files s'

/-- The rule is in a table in which no name is twice, so the scan for its name finds it. -/
theorem known_iff {table : List MonitorMsg} (h : RuleTable table) {r : Rule} :
    r.Known table ↔ r.unit ∈ pairs table r.monitor := by
  rw [Rule.Known, mem_pairs]
  refine ⟨?_, ?_⟩
  · rintro ⟨mm, hmm, hunit⟩
    exact ⟨mm, List.mem_reverse.1 (List.mem_of_find?_eq_some hmm),
      isMonitor_iff.1 (List.find?_some hmm), hunit⟩
  · rintro ⟨mm, hmm, hname, hunit⟩
    refine ⟨mm, ?_, hunit⟩
    obtain ⟨a, ha⟩ := Option.isSome_iff_exists.1
      (List.find?_isSome.2 ⟨mm, List.mem_reverse.2 hmm, isMonitor_iff.2 hname⟩)
    -- two entries of one name are the same entry
    have hsame : a = mm := List.inj_on_of_nodup_map h.names
      (List.mem_reverse.1 (List.mem_of_find?_eq_some ha)) hmm
      ((isMonitor_iff.1 (List.find?_some ha)).trans hname.symm)
    rw [ha, hsame]

theorem Effect.monitorMsglist_mask {t t' : PluginTables} {side : MaskSide}
    {pname mname : Option CStr} (h : (Effect.mask side pname mname).apply t = some t') :
    t'.monitorMsglist = t.monitorMsglist := by
  obtain ⟨mlist, -, h⟩ := Option.bind_eq_some_iff.1 h
  obtain rfl := Option.some.inj h
  rfl

/-- A run of effects with short rules keeps what the table has, and adds its rules. -/
theorem foldlM_apply {effects : List Effect} {t t' : PluginTables}
    (h : effects.foldlM Effect.apply t = some t') (ht : RuleTable t.monitorMsglist)
    (hshort : ∀ r, Effect.rule r ∈ effects → r.Short) :
    RuleTable t'.monitorMsglist ∧
      (∀ m u, u ∈ pairs t.monitorMsglist m → u ∈ pairs t'.monitorMsglist m) ∧
      ∀ r, Effect.rule r ∈ effects → r.unit ∈ pairs t'.monitorMsglist r.monitor := by
  induction effects generalizing t with
  | nil =>
    obtain rfl := Option.some.inj h
    exact ⟨ht, fun _ _ hu => hu, by simp⟩
  | cons e effects ih =>
    rw [List.foldlM_cons, Option.bind_eq_bind, Option.bind_eq_some_iff] at h
    obtain ⟨t₁, hfirst, hrest⟩ := h
    have hlater : ∀ r, Effect.rule r ∈ effects → r.Short :=
      fun r hr => hshort r (List.mem_cons_of_mem _ hr)
    cases e with
    | rule r =>
      have hr : r.Short := hshort r (by simp)
      obtain rfl := Option.some.inj hfirst
      obtain ⟨hwf, hkeep, hadd⟩ := ih hrest (ht.load hr) hlater
      refine ⟨hwf, fun m u hu => hkeep m u ((mem_pairs_load ht hr).2 (Or.inl hu)), ?_⟩
      intro r' hr'
      rcases List.mem_cons.1 hr' with heq | hr'
      · obtain rfl := Effect.rule.inj heq
        exact hkeep _ _ ((mem_pairs_load ht hr).2 (Or.inr ⟨rfl, rfl⟩))
      · exact hadd r' hr'
    | mask side pname mname =>
      have htable := Effect.monitorMsglist_mask hfirst
      obtain ⟨hwf, hkeep, hadd⟩ := ih hrest (htable ▸ ht) hlater
      refine ⟨hwf, fun m u hu => hkeep m u (htable ▸ hu), ?_⟩
      intro r hr
      exact hadd r (by simpa using hr)

/-- A file is loaded: it can still be read, and its rules are in the table. -/
structure LoadedUnit (files : Files) (t : PluginTables) (ppu : PluginUnit) : Prop where
  file : files ppu.filename = some ppu.root
  plain : Plain ppu.root
  rules : ∀ junk effects, rootEffects junk ppu.root = some effects →
    ∀ r, Effect.rule r ∈ effects → r.unit ∈ pairs t.monitorMsglist r.monitor

theorem LoadedUnit.mono {files : Files} {t t' : PluginTables} {ppu : PluginUnit}
    (h : LoadedUnit files t ppu)
    (hkeep : ∀ m u, u ∈ pairs t.monitorMsglist m → u ∈ pairs t'.monitorMsglist m) :
    LoadedUnit files t' ppu :=
  ⟨h.file, h.plain, fun junk effects hes r hr => hkeep _ _ (h.rules junk effects hes r hr)⟩

/-- In a loaded state no rule is twice in the table, and all the files are loaded. -/
theorem Loaded.units {files : Files} {s : Plugins} (h : Loaded files s) :
    RuleTable s.monitorMsglist ∧
      ∀ ppu ∈ s.pluginConfigJsonlist, LoadedUnit files s.toPluginTables ppu := by
  induction h with
  | start mlist => exact ⟨ruleTable_nil, by simp⟩
  | @add s s' junk path _ hpath hplain hadd ih =>
    obtain ⟨hwf, hunits⟩ := ih
    rw [ipcdPluginMonitorAddFile] at hadd
    split at hadd
    · obtain rfl := Option.some.inj hadd
      exact ⟨hwf, hunits⟩
    · cases hfile : files path with
      | none =>
        rw [hfile] at hadd
        obtain rfl := Option.some.inj hadd
        exact ⟨hwf, hunits⟩
      | some root =>
        rw [hfile] at hadd
        obtain ⟨⟨parsed, t⟩, hparse, hadd⟩ := Option.bind_eq_some_iff.1 hadd
        obtain ⟨effects, hes, hshort⟩ := hplain root hfile
        have hrun := ipcdPluginParseRoot_eq junk root s.toPluginTables
        rw [hparse, hes, replay, Option.map_some, Option.bind_some] at hrun
        obtain ⟨hwf', hkeep, hin⟩ := foldlM_apply hrun.symm hwf hshort
        cases parsed with
        | false =>
          obtain rfl := Option.some.inj hadd
          exact ⟨hwf', fun ppu hppu => (hunits ppu hppu).mono hkeep⟩
        | true =>
          obtain rfl := Option.some.inj hadd
          refine ⟨hwf', fun ppu hppu => ?_⟩
          rcases List.mem_append.1 hppu with hppu | hppu
          · exact (hunits ppu hppu).mono hkeep
          · -- the file that has just been read
            rw [List.mem_singleton.1 hppu]
            refine ⟨by rw [snprintf_of_lt hpath, hfile], ⟨effects, hes, hshort⟩, ?_⟩
            intro junk' effects' hes' r hr
            rw [hes] at hes'
            obtain rfl := Option.some.inj hes'
            exact hin r hr

/-- No mask of a loaded file is for a member. -/
def MasksMiss (s : Plugins) : Prop :=
  ∀ ppu ∈ s.pluginConfigJsonlist, ∀ junk effects, rootEffects junk ppu.root = some effects →
    ∀ side pname mname, Effect.mask side pname mname ∈ effects →
      ∀ m ∈ s.mlist, ∃ p, pname = some p ∧ ¬ maskCovers p m

theorem refreshEffects_units {files : Files} {t : PluginTables} {units : List PluginUnit}
    (h : ∀ ppu ∈ units, LoadedUnit files t ppu) (junk : ℕ → ℕ → ℕ → PluginBroadcatType) (k : ℕ) :
    ∃ effects, refreshEffects files junk k (units.map PluginUnit.filename) = some effects ∧
      ∀ e, e ∈ effects ↔ ∃ ppu ∈ units, ∃ junk' own, rootEffects junk' ppu.root = some own ∧
        e ∈ own := by
  induction units generalizing k with
  | nil => exact ⟨[], rfl, by simp⟩
  | cons ppu units ih =>
    obtain ⟨more, hmore, hmem⟩ := ih (fun ppu' hppu' => h ppu' (List.mem_cons_of_mem _ hppu')) (k + 1)
    have hppu := h ppu (by simp)
    obtain ⟨own, hown, -⟩ := hppu.plain
    refine ⟨own ++ more, ?_, ?_⟩
    · rw [List.map_cons, refreshEffects, hppu.file]
      simp only [hown, hmore, Option.bind_eq_bind, Option.bind_some]
    · intro e
      rw [List.mem_append, hmem, List.exists_mem_cons_iff]
      refine or_congr_left ⟨fun he => ⟨junk k, own, hown _, he⟩, ?_⟩
      rintro ⟨junk', own', hown', he⟩
      rw [hown] at hown'
      obtain rfl := Option.some.inj hown'
      exact he

theorem Loaded.idleRefresh_iff {files : Files} {s : Plugins} (h : Loaded files s)
    (junk : ℕ → ℕ → ℕ → PluginBroadcatType) :
    IdleRefresh files junk s.toPluginTables s.filenames ↔ MasksMiss s := by
  obtain ⟨hwf, hunits⟩ := h.units
  obtain ⟨effects, hes, hmem⟩ := refreshEffects_units hunits junk 0
  rw [Plugins.filenames, IdleRefresh, hes]
  refine ⟨?_, ?_⟩
  · rintro ⟨effects', heq, hidle⟩ ppu hppu junk' own hown side pname mname hmask
    obtain rfl := Option.some.inj heq
    exact hidle _ ((hmem _).2 ⟨ppu, hppu, junk', own, hown, hmask⟩)
  · intro hmiss
    refine ⟨effects, rfl, fun e he => ?_⟩
    obtain ⟨ppu, hppu, junk', own, hown, he⟩ := (hmem e).1 he
    cases e with
    | rule r => exact (known_iff hwf).2 ((hunits ppu hppu).rules junk' own hown r he)
    | mask side pname mname => exact hmiss ppu hppu junk' own hown side pname mname he

/-- **Refreshing is a no-op exactly when the loaders recognise all that they read.**  In any state,
when every rule of the files read is known and no mask of them is for a member; once files that fit
into their fields have been loaded, when no mask of them is for a member. -/
theorem refresh_noop (files : Files) (junk : ℕ → ℕ → ℕ → ℕ → PluginBroadcatType) (s : Plugins) :
    (Unchanged files junk s ↔
        ∀ n, IdleRefresh files (junk n) s.toPluginTables s.filenames) ∧
      (Loaded files s → (Unchanged files junk s ↔ MasksMiss s)) := by
  refine ⟨unchanged_iff, fun h => ?_⟩
  rw [unchanged_iff]
  simp only [h.idleRefresh_iff, forall_const]

/-! ## Two runs -/

section Samples

/-- A file with a rule and with a mask for the program `pname`. -/
def sampleRoot (pname : CStr) : CJson :=
  .node none none [.node (some (bytes "list")) none
    [.node none none
      [.node (some (bytes "type")) (some (bytes "m2m")) [],
        .node (some (bytes "monitor")) none [jsonString (bytes "alarm")],
        .node (some (bytes "broadcast")) none [jsonItem (bytes "shell", bytes "ls")]],
    .node none none
      [.node (some (bytes "type")) (some (bytes "mask_msg")) [],
        .node (some (bytes "send")) none
          [.node none none
            [.node (some (bytes "pname")) (some pname) [],
              .node (some (bytes "mname")) (some (bytes "m")) []]]]]]

/-- The file is the only one. -/
def sampleFiles (pname : CStr) : Files :=
  fun path => if path = bytes "/p.eec" then some (sampleRoot pname) else none

/-- The only member. -/
def sampleMember : MlistMember := newMember ⟨1, bytes "a", 5000, 5001, 0⟩ 0

/-- The state after the file has been read, with the masks of the member. -/
def sampleLoaded (pname : CStr) (maskSender : List CStr) : Plugins :=
  ⟨⟨[⟨bytes "alarm", [⟨bytes "ls", .shell⟩]⟩], [{ sampleMember with maskSender }]⟩,
    [⟨bytes "/p.eec", sampleRoot pname⟩]⟩

theorem rootEffects_sampleRoot (junk : ℕ → ℕ → PluginBroadcatType) (pname : CStr) :
    rootEffects junk (sampleRoot pname) =
      some [.rule ⟨bytes "alarm", bytes "ls", .shell⟩,
        .mask .sender (some pname) (some (bytes "m"))] := rfl

theorem plain_sampleRoot (pname : CStr) : Plain (sampleRoot pname) := by
  refine ⟨_, fun junk => rootEffects_sampleRoot junk pname, ?_⟩
  intro r hr
  obtain rfl : r = ⟨bytes "alarm", bytes "ls", .shell⟩ := by simpa using hr
  decide

theorem loaded_sample {pname : CStr} {maskSender : List CStr}
    (h : ipcdPluginMonitorAddFile (sampleFiles pname) (fun _ _ => .msg) (bytes "/p.eec")
      ⟨⟨[], [sampleMember]⟩, []⟩ = some (sampleLoaded pname maskSender)) :
    Loaded (sampleFiles pname) (sampleLoaded pname maskSender) := by
  refine Loaded.add _ _ (Loaded.start [sampleMember]) (by decide) ?_ h
  intro root hroot
  rw [sampleFiles, if_pos rfl] at hroot
  obtain rfl := Option.some.inj hroot
  exact plain_sampleRoot pname

/-- A mask for another program: refreshing changes nothing. -/
theorem refresh_noop_sample :
    Unchanged (sampleFiles (bytes "b")) (fun _ _ _ _ => .msg) (sampleLoaded (bytes "b") []) := by
  have hloaded : Loaded (sampleFiles (bytes "b")) (sampleLoaded (bytes "b") []) := loaded_sample rfl
  refine ((refresh_noop _ _ _).2 hloaded).2 ?_
  intro ppu hppu junk effects hes side pname mname hmask m hm
  obtain rfl := List.mem_singleton.1 hppu
  obtain rfl := List.mem_singleton.1 hm
  obtain rfl := Option.some.inj ((rootEffects_sampleRoot junk (bytes "b")).symm.trans hes)
  have hpname : pname = some (bytes "b") := by
    simp only [List.mem_cons, List.not_mem_nil, or_false, reduceCtorEq, false_or] at hmask
    exact (Effect.mask.inj hmask).2.1
  exact ⟨bytes "b", hpname, by decide⟩

/-- A mask for the member: it is put to the member once more. -/
theorem refresh_doubles : ¬ ∀ (files : Files) (junk : ℕ → ℕ → ℕ → ℕ → PluginBroadcatType)
    (s : Plugins), Loaded files s → Unchanged files junk s := by
  intro h
  have hloaded : Loaded (sampleFiles (bytes "a")) (sampleLoaded (bytes "a") [bytes "m"]) :=
    loaded_sample rfl
  have hone := h _ (fun _ _ _ _ => .msg) _ hloaded 1
  have htwice : (refreshes (sampleFiles (bytes "a")) (fun _ _ _ _ => .msg) 1
      (sampleLoaded (bytes "a") [bytes "m"])).map Plugins.toPluginTables =
        some (sampleLoaded (bytes "a") [bytes "m", bytes "m"]).toPluginTables := rfl
  rw [htwice] at hone
  exact absurd hone (by decide +kernel)

end Samples

end EasyIpc
