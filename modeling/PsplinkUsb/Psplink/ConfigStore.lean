import PsplinkUsb.Library.Numerals
import PsplinkUsb.Psplink.ConfigRereading

namespace PsplinkUsb.Psplink.ConfigStore

open PsplinkUsb.Library.Numerals
open PsplinkUsb.Psplink.ConfigReading
open PsplinkUsb.Psplink.ConfigUpdate
open PsplinkUsb.Psplink.ConfigRereading

abbrev Word := BitVec 32

structure ConfigContext where
  enableuser : Word
  resetonexit : Word
  pid : Word
deriving DecidableEq

/-- `struct psplink_config`. -/
structure ConfigName where
  name : Bytes
  isnum : Bool
  handler : ConfigContext → Bytes → Word → ConfigContext

def configPluser (ctx : ConfigContext) (_szVal : Bytes) (iVal : Word) : ConfigContext :=
  { ctx with enableuser := iVal }

def configResetonexit (ctx : ConfigContext) (_szVal : Bytes) (iVal : Word) : ConfigContext :=
  { ctx with resetonexit := iVal }

def configPid (ctx : ConfigContext) (_szVal : Bytes) (iVal : Word) : ConfigContext :=
  { ctx with pid := iVal }

def pluser : Bytes := [0x70, 0x6C, 0x75, 0x73, 0x65, 0x72]
def resetonexit : Bytes := [0x72, 0x65, 0x73, 0x65, 0x74, 0x6F, 0x6E, 0x65, 0x78, 0x69, 0x74]
def pid : Bytes := [0x70, 0x69, 0x64]

def configNames : List ConfigName :=
  [⟨pluser, true, configPluser⟩, ⟨resetonexit, true, configResetonexit⟩, ⟨pid, true, configPid⟩]

/-- `strtoul(val, &endp, 0)`, if `endp` is then at the end. -/
def number (val : Bytes) : Option Word :=
  match strtoul32 0 val with
  | some (n, []) => some (BitVec.ofNat 32 n)
  | some (_, _ :: _) => none
  | none => if val = [] then some 0 else none

/-- The loop over `config_names` for an entry. A value that should be a number ends it. -/
def applyNames (e : Entry) : List ConfigName → ConfigContext → ConfigContext
  | [], ctx => ctx
  | config :: rest, ctx =>
      if config.name = e.1 then
        if config.isnum then
          match number e.2 with
          | none => ctx
          | some iVal => applyNames e rest (config.handler ctx e.2 iVal)
        else applyNames e rest (config.handler ctx e.2 0)
      else applyNames e rest ctx

/-- `configLoad` of what is in `psplink.ini`. -/
def configLoad (content : Bytes) : ConfigContext :=
  eachEntry (fun ctx e => applyNames e configNames ctx) (psplinkConfigOpen content) ⟨0, 0, 0⟩

/-- The commands of the shell that change the file. -/
inductive Command where
  | confset (name val : Bytes)
  | confdel (name : Bytes)
deriving DecidableEq

def Command.name : Command → Bytes
  | .confset name _ => name
  | .confdel name => name

/-- What a command is for. -/
def Command.applied (es : List Entry) : Command → List Entry
  | .confset name val => updated name val configModeAdd es
  | .confdel name => updated name [] configModeDel es

def Command.run (fs : Files) : Command → Files
  | .confset name val => configChange .allSucceed name val configModeAdd fs
  | .confdel name => configChange .allSucceed name [] configModeDel fs

/-- The values that the configuration has for a name. -/
def values (es : List Entry) (name : Bytes) : List Bytes :=
  (es.filter fun e => e.1 = name).map Prod.snd

/-- What the next start takes for a name: the last of its values that is a number. -/
def setting (es : List Entry) (name : Bytes) : Word :=
  (((values es name).filterMap number).getLast?).getD 0

/-- The last command about a name. -/
def lastAbout (name : Bytes) (commands : List Command) : Option Command :=
  (commands.filter fun c => c.name = name).getLast?

/-- What has become of the values of a name, for the last command about it. -/
def Kept (es es' : List Entry) (name : Bytes) : Option Command → Prop
  | none => values es' name = values es name
  | some (.confset _ val) => values es' name ≠ [] ∧ ∀ x ∈ values es' name, x = val
  | some (.confdel _) => values es' name = []

/-- What the next start then takes for the name. -/
def expected (es : List Entry) (name : Bytes) : Option Command → Word
  | none => setting es name
  | some (.confset _ val) => (number val).getD 0
  | some (.confdel _) => 0

section

variable {es es' : List Entry} {name other val content : Bytes} {command : Command}
  {commands : List Command} {tmp : Option Bytes}

theorem mem_values {x : Bytes} : x ∈ values es name ↔ (name, x) ∈ es := by
  simp only [values, List.mem_map, List.mem_filter, decide_eq_true_eq]
  constructor
  · rintro ⟨⟨a, b⟩, ⟨hmem, rfl⟩, rfl⟩
    exact hmem
  · exact fun hmem => ⟨(name, x), ⟨hmem, rfl⟩, rfl⟩

theorem values_append (fs : List Entry) :
    values (es ++ fs) name = values es name ++ values fs name := by
  rw [values, values, values, List.filter_append, List.map_append]

theorem values_cons (e : Entry) :
    values (e :: es) name = (if e.1 = name then [e.2] else []) ++ values es name := by
  rw [values, List.filter_cons]
  split
  · rename_i hname
    rw [if_pos (of_decide_eq_true hname)]
    rfl
  · rename_i hname
    rw [if_neg fun h => hname (decide_eq_true h)]
    rfl

theorem values_applied_of_ne (hne : command.name ≠ name) :
    values (command.applied es) name = values es name := by
  cases command with
  | confset set val =>
      have hset : set ≠ name := hne
      rw [Command.applied, updated, if_pos rfl, values_append]
      have hnew : values (if ∃ e ∈ es, e.1 = set then [] else [(set, val)]) name = [] := by
        split
        · rfl
        · rw [values_cons, if_neg hset]
          rfl
      rw [hnew, List.append_nil]
      clear hnew
      induction es with
      | nil => rfl
      | cons e es ih =>
          rw [List.map_cons, values_cons, values_cons, ih]
          split
          · rename_i heq
            rw [if_neg fun h => hset (heq.symm.trans h)]
          · rfl
  | confdel del =>
      have hdel : name ≠ del := Ne.symm hne
      rw [Command.applied, updated, if_neg (by decide), values, values, List.filter_filter]
      congr 1
      apply List.filter_congr
      intro e he
      by_cases h : e.1 = name
      · simp [h, hdel]
      · simp [h]

theorem kept_applied : Kept es (command.applied es) command.name (some command) := by
  cases command with
  | confset set val =>
      rw [Kept, Command.applied, Command.name, updated, if_pos rfl]
      refine ⟨?_, fun x hx => ?_⟩
      · by_cases hfound : ∃ e ∈ es, e.1 = set
        · obtain ⟨e, he, hset⟩ := hfound
          have hmem : (set, val) ∈ es.map fun e => if e.1 = set then (set, val) else e :=
            List.mem_map.mpr ⟨e, he, if_pos hset⟩
          exact List.ne_nil_of_mem (mem_values.mpr (List.mem_append_left _ hmem))
        · rw [if_neg hfound]
          have hmem : (set, val) ∈ [(set, val)] := List.mem_singleton.mpr rfl
          exact List.ne_nil_of_mem (mem_values.mpr (List.mem_append_right _ hmem))
      · rcases List.mem_append.mp (mem_values.mp hx) with hmem | hmem
        · obtain ⟨e, -, heq⟩ := List.mem_map.mp hmem
          split at heq
          · exact (congrArg Prod.snd heq).symm
          · rename_i hset
            rw [heq] at hset
            exact absurd rfl hset
        · split at hmem
          · cases hmem
          · exact congrArg Prod.snd (List.mem_singleton.mp hmem)
  | confdel del =>
      rw [Kept, Command.applied, Command.name, updated, if_neg (by decide)]
      refine List.eq_nil_iff_forall_not_mem.mpr fun x hx => ?_
      have hmem := List.mem_filter.mp (mem_values.mp hx)
      simp at hmem

/-- After any commands, the last one about a name decides. -/
theorem kept_foldl (commands : List Command) (es : List Entry) (name : Bytes) :
    Kept es (commands.foldl Command.applied es) name (lastAbout name commands) := by
  induction commands using List.reverseRecOn with
  | nil => rfl
  | append_singleton commands command ih =>
      rw [List.foldl_concat, lastAbout, List.filter_append]
      by_cases hname : command.name = name
      · have hlast : [command].filter (fun c => c.name = name) = [command] := by simp [hname]
        rw [hlast, List.getLast?_concat]
        have hkept := @kept_applied (commands.foldl Command.applied es) command
        rw [hname] at hkept
        cases command with
        | confset set val => exact hkept
        | confdel del => exact hkept
      · have hlast : [command].filter (fun c => c.name = name) = [] := by simp [hname]
        rw [hlast, List.append_nil]
        rw [lastAbout] at ih
        have hvalues := @values_applied_of_ne (commands.foldl Command.applied es) name command hname
        cases hlast : (commands.filter fun c => c.name = name).getLast? with
        | none =>
            rw [hlast] at ih
            exact hvalues.trans ih
        | some last =>
            rw [hlast] at ih
            cases last with
            | confset set val =>
                rw [Kept, hvalues]
                exact ih
            | confdel del => exact hvalues.trans ih

theorem setting_of_kept {last : Option Command} (h : Kept es es' name last) :
    setting es' name = expected es name last := by
  cases last with
  | none => rw [setting, h, expected, setting]
  | some command =>
      cases command with
      | confset set val =>
          obtain ⟨hne, hall⟩ := h
          have hreplicate := List.eq_replicate_iff.mpr ⟨rfl, hall⟩
          obtain ⟨k, hk⟩ := Nat.exists_eq_succ_of_ne_zero (List.length_pos_of_ne_nil hne).ne'
          rw [hk] at hreplicate
          rw [setting, expected, hreplicate]
          cases hval : number val with
          | none => simp [List.filterMap_replicate_of_none hval]
          | some w => simp [List.filterMap_replicate_of_some hval, List.getLast?_replicate]
      | confdel del =>
          rw [setting, expected, show values es' name = [] from h]
          rfl

theorem getD_setting (e : Entry) (d : Word) :
    (((values (e :: es) name).filterMap number).getLast?).getD d =
      (((values es name).filterMap number).getLast?).getD
        (if e.1 = name then (number e.2).getD d else d) := by
  rw [values_cons]
  split
  · rw [List.singleton_append, List.filterMap_cons]
    cases number e.2 with
    | none => rfl
    | some w => rw [List.getLast?_cons, Option.getD_some, Option.getD_some]
  · rfl

theorem applyNames_eq (e : Entry) (ctx : ConfigContext) :
    applyNames e configNames ctx =
      ⟨if e.1 = pluser then (number e.2).getD ctx.enableuser else ctx.enableuser,
        if e.1 = resetonexit then (number e.2).getD ctx.resetonexit else ctx.resetonexit,
        if e.1 = pid then (number e.2).getD ctx.pid else ctx.pid⟩ := by
  obtain ⟨name, value⟩ := e
  have hpluser : pluser ≠ resetonexit ∧ pluser ≠ pid := by decide
  have hreset : resetonexit ≠ pid := by decide
  simp only [configNames, applyNames, if_true]
  by_cases h₁ : name = pluser
  · subst h₁
    rw [if_pos rfl, if_pos rfl, if_neg hpluser.1, if_neg hpluser.2]
    cases number value with
    | none => rfl
    | some w =>
        dsimp only
        rw [if_neg hpluser.1.symm, if_neg hpluser.2.symm]
        rfl
  · rw [if_neg (Ne.symm h₁), if_neg h₁]
    by_cases h₂ : name = resetonexit
    · subst h₂
      rw [if_pos rfl, if_pos rfl, if_neg hreset]
      cases number value with
      | none => rfl
      | some w =>
          dsimp only
          rw [if_neg hreset.symm]
          rfl
    · rw [if_neg (Ne.symm h₂), if_neg h₂]
      by_cases h₃ : name = pid
      · subst h₃
        rw [if_pos rfl, if_pos rfl]
        cases number value with
        | none => rfl
        | some w => rfl
      · rw [if_neg (Ne.symm h₃), if_neg h₃]

theorem configLoad_eq (content : Bytes) :
    configLoad content =
      ⟨setting (configEntries content) pluser, setting (configEntries content) resetonexit,
        setting (configEntries content) pid⟩ := by
  have hfold (es : List Entry) (ctx : ConfigContext) :
      es.foldl (fun ctx e => applyNames e configNames ctx) ctx =
        ⟨(((values es pluser).filterMap number).getLast?).getD ctx.enableuser,
          (((values es resetonexit).filterMap number).getLast?).getD ctx.resetonexit,
          (((values es pid).filterMap number).getLast?).getD ctx.pid⟩ := by
    induction es generalizing ctx with
    | nil => rfl
    | cons e es ih =>
        rw [List.foldl_cons, ih, applyNames_eq]
        simp only [getD_setting]
  rw [configLoad, eachEntry_eq, hfold, configEntries_eq]
  rfl

theorem run_eq (content : Bytes) (tmp : Option Bytes) (command : Command) :
    command.run ⟨some content, tmp⟩ =
      ⟨some (configText (command.applied (configEntries content))), none⟩ := by
  cases command with
  | confset set val =>
      rw [Command.run, configChange, if_neg (by decide), Command.applied, ← changedText_eq]
      rfl
  | confdel del =>
      rw [Command.run, configChange, if_neg (by decide), Command.applied, ← changedText_eq]
      rfl

/-- The commands on the file do what they are for, as long as what is written can be read. -/
theorem foldl_run (commands : List Command) (content : Bytes) (tmp : Option Bytes)
    (hreread : ∀ before, before <+: commands → before ≠ [] →
      Rereadable (before.foldl Command.applied (configEntries content))) :
    ∃ content', (commands.foldl Command.run ⟨some content, tmp⟩).cnf = some content' ∧
      configEntries content' = commands.foldl Command.applied (configEntries content) := by
  induction commands generalizing content tmp with
  | nil => exact ⟨content, rfl, rfl⟩
  | cons command commands ih =>
      have hfirst : configEntries (configText (command.applied (configEntries content))) =
          command.applied (configEntries content) :=
        (configEntries_configText _).mpr
          (hreread [command] ((List.prefix_append [command] commands)) (List.cons_ne_nil _ _))
      obtain ⟨content', hcnf, hentries⟩ :=
        ih (configText (command.applied (configEntries content))) none fun before hbefore _ => by
          rw [hfirst]
          exact hreread (command :: before) (List.cons_prefix_cons.mpr ⟨rfl, hbefore⟩)
            (List.cons_ne_nil _ _)
      rw [List.foldl_cons, List.foldl_cons, run_eq]
      rw [hfirst] at hentries
      exact ⟨content', hcnf, hentries⟩

end

/-- After any run of the commands each name has the value that the last command about it gave it,
or the values it had; and this is what the next start takes. -/
theorem config_store (content : Bytes) (tmp : Option Bytes) (commands : List Command)
    (hreread : ∀ before, before <+: commands → before ≠ [] →
      Rereadable (before.foldl Command.applied (configEntries content))) :
    ∃ content', (commands.foldl Command.run ⟨some content, tmp⟩).cnf = some content' ∧
      (∀ name, Kept (configEntries content) (configEntries content') name
        (lastAbout name commands)) ∧
      configLoad content' =
        ⟨expected (configEntries content) pluser (lastAbout pluser commands),
          expected (configEntries content) resetonexit (lastAbout resetonexit commands),
          expected (configEntries content) pid (lastAbout pid commands)⟩ := by
  obtain ⟨content', hcnf, hentries⟩ := foldl_run commands content tmp hreread
  have hkept (name : Bytes) : Kept (configEntries content) (configEntries content') name
      (lastAbout name commands) := by
    rw [hentries]
    exact kept_foldl commands (configEntries content) name
  refine ⟨content', hcnf, hkept, ?_⟩
  rw [configLoad_eq, setting_of_kept (hkept pluser), setting_of_kept (hkept resetonexit),
    setting_of_kept (hkept pid)]

/-- `pid` is set to 5 and to 6, and `pluser` is not in the file that is then deleted from. -/
theorem config_store_pid :
    ∃ content', ([.confset pid [0x35], .confset pid [0x36], .confdel pluser].foldl Command.run
        ⟨some [], none⟩).cnf = some content' ∧
      (∀ name, Kept (configEntries []) (configEntries content') name
        (lastAbout name [.confset pid [0x35], .confset pid [0x36], .confdel pluser])) ∧
      configLoad content' =
        ⟨expected (configEntries []) pluser
            (lastAbout pluser [.confset pid [0x35], .confset pid [0x36], .confdel pluser]),
          expected (configEntries []) resetonexit
            (lastAbout resetonexit [.confset pid [0x35], .confset pid [0x36], .confdel pluser]),
          expected (configEntries []) pid
            (lastAbout pid [.confset pid [0x35], .confset pid [0x36], .confdel pluser])⟩ :=
  config_store [] none _ fun before hbefore _ => by
    have hall : ∀ before ∈
        [Command.confset pid [0x35], .confset pid [0x36], .confdel pluser].inits,
        configEntries (configText (before.foldl Command.applied (configEntries []))) =
          before.foldl Command.applied (configEntries []) := by decide +kernel
    exact (configEntries_configText _).mp (hall before (List.mem_inits _ _ |>.mpr hbefore))

example : configLoad [0x70, 0x69, 0x64, 0x3D, 0x30, 0x78, 0x31, 0x30, 0x0A] = ⟨0, 0, 16⟩ := by
  decide +kernel

end PsplinkUsb.Psplink.ConfigStore
