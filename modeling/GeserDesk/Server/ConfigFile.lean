import GeserDesk.Server.DeskState
import Mathlib.Data.Finset.Image

/-!
# The config file

`geserdesk-server/src/config.rs` and the writers of `admin.rs`, over the parsed file: printing a
document and parsing it again is the TOML library's business. The writers edit what is there and
leave the rest as it was; tables that none of them touches, such as the links, are not part of it.

* **`Settings`**: what of the file the running server has in memory too, and `Change.apply` what a
  saved change means for it.
* **`edit_spec`**: every edit does to a file what its change means.
-/

namespace GeserDesk

/-! ## The file and what it says

The parsed file, table by table, and the configuration it stands for. -/

structure SocketAddr where
  ip : String
  port : Nat
deriving DecidableEq

def defaultListen : SocketAddr := ⟨"0.0.0.0", 24810⟩

/-- A `[[screens]]` table. -/
structure ScreenEntry where
  name : String
  x : Option Int := none
  y : Option Int := none
  w : Option Int := none
  h : Option Int := none
  fingerprint : Option Fingerprint := none
  disabled : Option Bool := none
deriving DecidableEq

structure OptionsSection where
  switchDelayMs : Option Nat := none
  switchDoubleTapMs : Option Nat := none
  switchCornerSize : Option Int := none
  jumpZoneSize : Option Int := none
  scrollLockLocks : Option Bool := none
  clipboardSharing : Option Bool := none
  clipboardMaxBytes : Option Nat := none
  screensaverSync : Option Bool := none
  relativeMouseMoves : Option Bool := none
  clipboardFiles : Option Bool := none
  clipboardFilesMaxBytes : Option Nat := none
deriving DecidableEq

structure ConfigFile where
  /-- `[server] listen` and `screen`. -/
  listen : Option SocketAddr := none
  screen : Option String := none
  screens : List ScreenEntry
  options : Option OptionsSection := none
deriving DecidableEq

inductive ConfigError where
  | noScreens
  | duplicateScreen (name : String)
  | unknownLocalScreen (name : String)
deriving DecidableEq

structure Config where
  listen : SocketAddr
  localScreen : String
  positions : Dict String Point
  sizes : Dict String Size
  trusted : Dict String Fingerprint
  disabled : Finset String
  names : List String
  policy : SwitchPolicy
  options : Options

/-- A `BTreeMap` of the pairs. -/
def collect {V : Type} (l : List (String × V)) : Dict String V :=
  l.foldl (fun m e => m.put e.1 e.2) ∅

namespace ScreenEntry

def position (e : ScreenEntry) : Option Point :=
  if e.x.isSome || e.y.isSome then some ⟨e.x.getD 0, e.y.getD 0⟩ else none

/-- Only a complete, positive size counts; anything else means "as it is". -/
def size (e : ScreenEntry) : Option Size :=
  match e.w, e.h with
  | some w, some h => if 0 < w ∧ 0 < h then some ⟨w, h⟩ else none
  | _, _ => none

end ScreenEntry

namespace OptionsSection

def policy (opt : OptionsSection) : SwitchPolicy where
  delayMs := opt.switchDelayMs.getD 0
  doubleTapMs := opt.switchDoubleTapMs.getD 0
  cornerSize := opt.switchCornerSize.getD 0
  jumpZone := opt.jumpZoneSize.getD 1
  scrollLockLocks := opt.scrollLockLocks.getD true

def shared (opt : OptionsSection) : Options where
  clipboardSharing := opt.clipboardSharing.getD true
  clipboardMaxBytes := opt.clipboardMaxBytes.getD 0
  scrollLockLocks := opt.policy.scrollLockLocks
  screensaverSync := opt.screensaverSync.getD false
  relativeMouseMoves := opt.relativeMouseMoves.getD true
  clipboardFiles := opt.clipboardFiles.getD true
  clipboardFilesMaxBytes := opt.clipboardFilesMaxBytes.getD 0

end OptionsSection

namespace ConfigFile

def names (f : ConfigFile) : List String := f.screens.map (·.name)

/-- The first name that comes twice. -/
def firstDuplicate : List String → Option String
  | [] => none
  | n :: ns => if n ∈ ns then some n else firstDuplicate ns

/-- The config of a file that has passed the checks. -/
def config (f : ConfigFile) (localScreen : String) : Config where
  listen := f.listen.getD defaultListen
  localScreen := localScreen
  positions := collect (f.screens.filterMap fun e => e.position.map fun p => (e.name, p))
  sizes := collect (f.screens.filterMap fun e => e.size.map fun s => (e.name, s))
  trusted := collect (f.screens.filterMap fun e => e.fingerprint.map fun fp => (e.name, fp))
  disabled := ((f.screens.filter (·.disabled = some true)).map (·.name)).toFinset
  names := f.names
  policy := (f.options.getD {}).policy
  options := (f.options.getD {}).shared

/-- Parse and validate a config. -/
def parse (f : ConfigFile) : Except ConfigError Config := do
  if f.screens.isEmpty then throw .noScreens
  if let some name := firstDuplicate f.names then throw (.duplicateScreen name)
  let localScreen ← match f.screen with
    | some name => if name ∈ f.names then pure name else throw (.unknownLocalScreen name)
    | none => pure (f.names.headD "")
  pure (f.config localScreen)

end ConfigFile

/-- The settings the app's window edits. -/
structure Tuning where
  port : Nat := defaultListen.port
  switchDelayMs : Nat := 0
  switchDoubleTapMs : Nat := 0
  switchCornerSize : Int := 0
  jumpZoneSize : Int := 1
  scrollLockLocks : Bool := true
  clipboardSharing : Bool := true
  clipboardFiles : Bool := true
deriving DecidableEq

namespace Tuning

def of (config : Config) : Tuning where
  port := config.listen.port
  switchDelayMs := config.policy.delayMs
  switchDoubleTapMs := config.policy.doubleTapMs
  switchCornerSize := config.policy.cornerSize
  jumpZoneSize := config.policy.jumpZone
  scrollLockLocks := config.policy.scrollLockLocks
  clipboardSharing := config.options.clipboardSharing
  clipboardFiles := config.options.clipboardFiles

/-- Whether these values can be used. -/
def check (t : Tuning) : Bool := t.port ≠ 0 && 1 ≤ t.jumpZoneSize && 0 ≤ t.switchCornerSize

end Tuning

/-! ## The writers

Each writer edits the tables of the screens and leaves the rest of the file alone. -/

namespace ConfigFile

/-- Edit each `[[screens]]` table in place; `none` if there is none. -/
def editScreens (f : ConfigFile) (edit : ScreenEntry → ScreenEntry) : Option ConfigFile :=
  if f.screens.isEmpty then none else some { f with screens := f.screens.map edit }

/-- Write `x` and `y` of each screen with a position, and `w` and `h` of those in `sizes`, removing
them from the others. -/
def writeLayout (f : ConfigFile) (positions : Dict String Point) (sizes : Dict String Size) :
    Option ConfigFile :=
  f.editScreens fun e =>
    let e := match positions.get? e.name with
      | some p => { e with x := some p.x, y := some p.y }
      | none => e
    match sizes.get? e.name with
    | some s => { e with w := some s.w, h := some s.h }
    | none => { e with w := none, h := none }

/-- Turn the `disabled` key of `screen` on, or remove it. -/
def writeDisabled (f : ConfigFile) (screen : String) (disabled : Bool) : Option ConfigFile :=
  f.editScreens fun e =>
    if e.name = screen then { e with disabled := if disabled then some true else none } else e

/-- Record, or with `none` remove, the fingerprint trusted for `screen`. -/
def writeFingerprint (f : ConfigFile) (screen : String) (fingerprint : Option Fingerprint) :
    Option ConfigFile :=
  f.editScreens fun e => if e.name = screen then { e with fingerprint := fingerprint } else e

/-- Add a table for a machine approved while the server ran; `none` for a name already there. -/
def addScreenToConfig (f : ConfigFile) (screen : String) (fingerprint : Fingerprint) :
    Option ConfigFile :=
  if f.screens.any (·.name = screen) then none
  else some { f with
    screens := f.screens ++ [{ name := screen, fingerprint := some fingerprint }] }

/-- A value equal to its default is removed. -/
def keep {V : Type} [DecidableEq V] (v default_ : V) : Option V :=
  if v = default_ then none else some v

/-- Write the port, keeping the address, and the matching options. -/
def writeTuning (f : ConfigFile) (t : Tuning) : Option ConfigFile :=
  let listen : SocketAddr := ⟨(f.listen.getD defaultListen).ip, t.port⟩
  let def_ : Tuning := {}
  let options : OptionsSection := { f.options.getD {} with
    switchDelayMs := keep t.switchDelayMs def_.switchDelayMs
    switchDoubleTapMs := keep t.switchDoubleTapMs def_.switchDoubleTapMs
    switchCornerSize := keep t.switchCornerSize def_.switchCornerSize
    jumpZoneSize := keep t.jumpZoneSize def_.jumpZoneSize
    scrollLockLocks := keep t.scrollLockLocks def_.scrollLockLocks
    clipboardSharing := keep t.clipboardSharing def_.clipboardSharing
    clipboardFiles := keep t.clipboardFiles def_.clipboardFiles }
  some { f with
    listen := if f.listen.isSome || t.port ≠ def_.port then some listen else f.listen
    options := if options = {} then none else some options }

end ConfigFile

/-- What a call saves, once it has checked what it is asked for. -/
inductive Change where
  /-- `approve`, with the certificate that was trusted before. -/
  | trust (name : String) (fp : Fingerprint) (listed : Bool) (previous : Option Fingerprint)
  /-- `revoke`, with the one that was. -/
  | untrust (name : String) (old : Fingerprint)
  | disable (name : String) (disabled : Bool)
  | layout (positions : Dict String Point) (sizes : Dict String Size)
  | tuning (t : Tuning)

/-- What it writes. -/
def Change.edit : Change → ConfigFile → Option ConfigFile
  | .trust name fp listed _, f =>
    if listed then f.writeFingerprint name (some fp) else f.addScreenToConfig name fp
  | .untrust name _, f => f.writeFingerprint name none
  | .disable name disabled, f => f.writeDisabled name disabled
  | .layout positions sizes, f => f.writeLayout positions sizes
  | .tuning t, f => f.writeTuning t

/-! ## What it means

The settings a file stands for, as functions of a name. A valid file is read as exactly these. -/

/-- What a config says of each screen, and the tuning. -/
@[ext] structure Settings where
  trusted : String → Option Fingerprint
  disabled : String → Bool
  positions : String → Option Point
  sizes : String → Option Size
  tuning : Tuning

def Config.settings (c : Config) : Settings where
  trusted := c.trusted.get?
  disabled n := decide (n ∈ c.disabled)
  positions := c.positions.get?
  sizes := c.sizes.get?
  tuning := .of c

def Change.apply (s : Settings) : Change → Settings
  | .trust name fp _ _ => { s with trusted := Function.update s.trusted name (some fp) }
  | .untrust name _ => { s with trusted := Function.update s.trusted name none }
  | .disable name disabled => { s with disabled := Function.update s.disabled name disabled }
  | .layout positions sizes => { s with positions := positions.get?, sizes := sizes.get? }
  | .tuning t => { s with tuning := t }

namespace ConfigFile

/-- The table of a screen. -/
def table? (f : ConfigFile) (n : String) : Option ScreenEntry := f.screens.find? (·.name = n)

/-- What parses. -/
structure Valid (f : ConfigFile) : Prop where
  screens : f.screens ≠ []
  nodup : f.names.Nodup
  screen : ∀ n, f.screen = some n → n ∈ f.names

/-- What a file that parses says, table by table. -/
def settings (f : ConfigFile) : Settings where
  trusted n := (f.table? n).bind (·.fingerprint)
  disabled n := (f.table? n).any (·.disabled = some true)
  positions n := (f.table? n).bind (·.position)
  sizes n := (f.table? n).bind (·.size)
  tuning := .of (f.config "")

/-- Without a repetition there is no first one. -/
theorem firstDuplicate_of_nodup {ns : List String} (h : ns.Nodup) : firstDuplicate ns = none := by
  induction ns with
  | nil => rfl
  | cons n ns ih =>
    obtain ⟨hn, hns⟩ := List.nodup_cons.mp h
    rw [firstDuplicate, if_neg hn, ih hns]

/-- A table of names that are all different has the value of each. -/
theorem collect_get? {V : Type} (g : ScreenEntry → Option V) {l : List ScreenEntry}
    (hl : (l.map (·.name)).Nodup) (n : String) :
    (collect (l.filterMap fun e => (g e).map fun v => (e.name, v))).get? n
      = (l.find? (·.name = n)).bind g := by
  have key : ∀ (l : List ScreenEntry) (acc : Dict String V), (l.map (·.name)).Nodup →
      ((l.filterMap fun e => (g e).map fun v => (e.name, v)).foldl
        (fun (m : Dict String V) e => m.put e.1 e.2) acc).get? n
        = ((l.find? (·.name = n)).bind g).or (acc.get? n) := by
    intro l
    induction l with
    | nil => exact fun _ _ => rfl
    | cons e l ih =>
      intro acc hl
      obtain ⟨he, hl⟩ := List.nodup_cons.mp hl
      -- the value of this table, if it is the one asked for, is not overwritten
      have hafter : e.name = n → (l.find? (·.name = n)).bind g = none := by
        intro hn
        have hnone : l.find? (·.name = n) = none := by
          refine List.find?_eq_none.mpr fun e' he' heq => he ?_
          have heq : e'.name = n := of_decide_eq_true heq
          have hmem : e'.name ∈ l.map (·.name) := List.mem_map_of_mem he'
          rwa [heq, ← hn] at hmem
        rw [hnone]
        rfl
      by_cases hn : e.name = n
      · rw [List.find?_cons_of_pos (by exact decide_eq_true hn)]
        cases hg : g e with
        | none =>
          rw [List.filterMap_cons_none (by rw [hg]; rfl), ih acc hl, hafter hn, Option.bind_some, hg]
        | some v =>
          rw [List.filterMap_cons_some (by rw [hg]; rfl), List.foldl_cons, ih _ hl, hafter hn,
            Dict.get?_put, if_pos hn.symm, Option.bind_some, hg]
          rfl
      · rw [List.find?_cons_of_neg (by simpa using hn)]
        cases hg : g e with
        | none => rw [List.filterMap_cons_none (by rw [hg]; rfl), ih acc hl]
        | some v =>
          rw [List.filterMap_cons_some (by rw [hg]; rfl), List.foldl_cons, ih _ hl, Dict.get?_put,
            if_neg (Ne.symm hn)]
  rw [collect, key l ∅ hl, Dict.get?_empty, Option.or_none]

/-- A name is listed just if it has a table. -/
theorem mem_names_iff {f : ConfigFile} {n : String} :
    n ∈ f.names ↔ ∃ e, f.table? n = some e := by
  rw [names, List.mem_map, ← Option.isSome_iff_exists, table?, List.find?_isSome]
  exact ⟨fun ⟨e, he, hn⟩ => ⟨e, he, decide_eq_true hn⟩,
    fun ⟨e, he, hn⟩ => ⟨e, he, of_decide_eq_true hn⟩⟩

/-- The screens turned off are those whose table says so. -/
theorem disabled_iff {f : ConfigFile} (hf : f.names.Nodup) (n : String) :
    n ∈ ((f.screens.filter (·.disabled = some true)).map (·.name)).toFinset
      ↔ (f.table? n).any (·.disabled = some true) = true := by
  rw [List.mem_toFinset, List.mem_map, table?]
  constructor
  · rintro ⟨e, he, rfl⟩
    obtain ⟨hmem, hoff⟩ := List.mem_filter.mp he
    cases hfind : f.screens.find? (·.name = e.name) with
    | none => exact absurd (decide_eq_true rfl) (List.find?_eq_none.mp hfind e hmem)
    | some e' =>
      have hname : e'.name = e.name := by simpa using List.find?_some hfind
      have heq : e' = e :=
        List.inj_on_of_nodup_map hf (List.mem_of_find?_eq_some hfind) hmem hname
      rw [heq]
      exact hoff
  · intro h
    obtain ⟨e, he, hoff⟩ := (Option.any_eq_true _ _).mp h
    exact ⟨e, List.mem_filter.mpr ⟨List.mem_of_find?_eq_some he, hoff⟩,
      by simpa using List.find?_some he⟩

/-- **A valid file parses, and what it says is what its tables say.** -/
theorem parse_valid {f : ConfigFile} (hf : f.Valid) :
    ∃ c, f.parse = .ok c ∧ c.settings = f.settings := by
  have hscreens : f.screens.isEmpty = false := by simpa using hf.screens
  have hdup := firstDuplicate_of_nodup hf.nodup
  have hparse : ∃ localScreen, f.parse = .ok (f.config localScreen) := by
    unfold parse
    simp only [hscreens, hdup, Bool.false_eq_true, if_false, pure_bind]
    cases hscreen : f.screen with
    | none => exact ⟨_, rfl⟩
    | some n =>
      dsimp only
      rw [if_pos (hf.screen n hscreen)]
      exact ⟨n, rfl⟩
  obtain ⟨localScreen, hparse⟩ := hparse
  refine ⟨_, hparse, ?_⟩
  unfold Config.settings settings table?
  congr 1
  · funext n
    exact collect_get? _ hf.nodup n
  · funext n
    rw [Bool.eq_iff_iff, decide_eq_true_iff]
    exact disabled_iff hf.nodup n
  · funext n
    exact collect_get? _ hf.nodup n
  · funext n
    exact collect_get? _ hf.nodup n

/-! ## What the writers do to it

One theorem for each writer: the settings change at what was written, and the file stays valid. -/

/-- Editing the tables in place. -/
theorem editScreens_spec {f f' : ConfigFile} {edit : ScreenEntry → ScreenEntry}
    (hname : ∀ e, (edit e).name = e.name) (h : f.editScreens edit = some f') :
    f'.names = f.names ∧ (∀ n, f'.table? n = (f.table? n).map edit)
      ∧ f' = { f with screens := f'.screens } := by
  unfold editScreens at h
  split at h
  · cases h
  · cases h
    refine ⟨?_, fun n => ?_, rfl⟩
    · show (f.screens.map edit).map (·.name) = f.screens.map (·.name)
      rw [List.map_map]
      exact List.map_congr_left fun e _ => hname e
    · show (f.screens.map edit).find? (·.name = n) = _
      rw [List.find?_map, table?]
      congr 2
      funext e
      simp only [Function.comp_apply, hname]

/-- Whether a file is valid depends on its names alone. -/
theorem Valid.of_names {f f' : ConfigFile} (hf : f.Valid) (hnames : f'.names = f.names)
    (hscreen : f'.screen = f.screen) : f'.Valid := by
  refine ⟨fun hnil => hf.screens ?_, by rw [hnames]; exact hf.nodup, ?_⟩
  · have hempty : f.names = [] := by rw [← hnames, names, hnil]; rfl
    exact List.map_eq_nil_iff.mp hempty
  · rw [hscreen, hnames]
    exact hf.screen

/-- A change the file has the tables for. -/
def Suits (f : ConfigFile) : Change → Prop
  | .trust name _ listed _ => listed = true → name ∈ f.names
  | .untrust _ _ => True
  | .disable name _ => name ∈ f.names
  | .layout positions sizes => (∀ n, positions.get? n ≠ none → n ∈ f.names)
      ∧ (∀ n s, sizes.get? n = some s → n ∈ f.names ∧ 0 < s.w ∧ 0 < s.h)
      ∧ ∀ n, positions.get? n = none → f.settings.positions n = none
  | .tuning _ => True

variable {f f' : ConfigFile}

/-- `write_fingerprint` changes what is trusted of that name and nothing else. -/
theorem writeFingerprint_spec (hf : f.Valid) {name : String} {fp : Option Fingerprint}
    (hlisted : fp ≠ none → name ∈ f.names) (h : f.writeFingerprint name fp = some f') :
    f'.Valid ∧ f'.names = f.names
      ∧ f'.settings = { f.settings with trusted := Function.update f.settings.trusted name fp } := by
  obtain ⟨hnames, htable, hrest⟩ := editScreens_spec (fun e => by split <;> rfl) h
  -- what `writeFingerprint` does not write is the same in every table
  have hother : ∀ {V : Type} (g : ScreenEntry → Option V), (∀ e, g { e with fingerprint := fp } = g e) →
      ∀ n, (f'.table? n).bind g = (f.table? n).bind g := by
    intro V g hg n
    rw [htable]
    cases f.table? n with
    | none => rfl
    | some e =>
      show g (if e.name = name then _ else e) = g e
      split
      · exact hg e
      · rfl
  refine ⟨hf.of_names hnames (by rw [hrest]), hnames, ?_⟩
  refine Settings.ext (funext fun n => ?_) (funext fun n => ?_) (funext fun n => ?_)
    (funext fun n => ?_) ?_
  -- trusted: the name written, and any other
  · show (f'.table? n).bind (·.fingerprint)
      = Function.update (fun n => (f.table? n).bind (·.fingerprint)) name fp n
    rw [htable]
    by_cases hn : n = name
    · rw [hn, Function.update_self]
      cases htab : f.table? name with
      | none =>
        cases fp with
        | none => rfl
        | some fp =>
          obtain ⟨e, he⟩ := mem_names_iff.mp (hlisted (by simp))
          rw [htab] at he
          cases he
      | some e =>
        have hename : e.name = name := by simpa using List.find?_some htab
        simp [hename]
    · rw [Function.update_of_ne hn]
      cases htab : f.table? n with
      | none => rfl
      | some e =>
        have hename : e.name = n := by simpa using List.find?_some htab
        simp [hename, hn]
  -- the disabled screens
  · show (f'.table? n).any _ = (f.table? n).any _
    rw [htable]
    cases f.table? n with
    | none => rfl
    | some e =>
      simp only [Option.map_some, Option.any_some]
      split <;> rfl
  · exact hother _ (fun _ => rfl) n
  · exact hother _ (fun _ => rfl) n
  · rw [hrest]
    rfl

/-- `add_screen_to_config` adds that screen with its fingerprint. -/
theorem addScreenToConfig_spec (hf : f.Valid) {name : String} {fp : Fingerprint}
    (h : f.addScreenToConfig name fp = some f') :
    f'.Valid ∧ f'.names = f.names ++ [name] ∧ f'.settings
      = { f.settings with trusted := Function.update f.settings.trusted name (some fp) } := by
  unfold addScreenToConfig at h
  split at h
  · cases h
  next hfree =>
    cases h
    have hnew : name ∉ f.names := by
      intro hmem
      obtain ⟨e, he, hname⟩ := List.mem_map.mp hmem
      exact hfree (List.any_eq_true.mpr ⟨e, he, decide_eq_true hname⟩)
    have hnames : ({ f with screens := f.screens ++ [{ name := name, fingerprint := some fp }] }
        : ConfigFile).names = f.names ++ [name] := by simp [names]
    have hnone : f.table? name = none := by
      cases htab : f.table? name with
      | none => rfl
      | some e => exact absurd (mem_names_iff.mpr ⟨e, htab⟩) hnew
    -- the new table says nothing but its fingerprint
    have htable : ∀ n, ({ f with screens := f.screens ++ [{ name := name, fingerprint := some fp }] }
        : ConfigFile).table? n
        = if n = name then some { name := name, fingerprint := some fp } else f.table? n := by
      intro n
      show (f.screens ++ [_]).find? _ = _
      rw [List.find?_append]
      by_cases hn : n = name
      · subst hn
        rw [show f.screens.find? (·.name = n) = none from hnone, if_pos rfl]
        simp
      · rw [if_neg hn]
        simp [table?, Ne.symm hn]
    refine ⟨⟨by simp, ?_, fun n hn => ?_⟩, hnames, ?_⟩
    · rw [hnames]
      exact List.nodup_append.mpr ⟨hf.nodup, List.nodup_singleton _,
        fun a ha b hb => by rw [List.mem_singleton.mp hb]; rintro rfl; exact hnew ha⟩
    · rw [hnames]
      exact List.mem_append_left _ (hf.screen n hn)
    · have hother : ∀ {V : Type} (g : Option ScreenEntry → V),
          g (some { name := name, fingerprint := some fp }) = g none → ∀ n,
          g (({ f with screens := f.screens ++ [{ name := name, fingerprint := some fp }] }
            : ConfigFile).table? n) = g (f.table? n) := by
        intro V g hg n
        rw [htable]
        split
        · next hn => rw [hn, hnone, hg]
        · rfl
      refine Settings.ext (funext fun n => ?_) (funext fun n => ?_) (funext fun n => ?_)
        (funext fun n => ?_) rfl
      · show (table? _ n).bind (·.fingerprint)
          = Function.update (fun n => (f.table? n).bind (·.fingerprint)) name (some fp) n
        rw [htable]
        by_cases hn : n = name
        · rw [if_pos hn, hn, Function.update_self]
          rfl
        · rw [if_neg hn, Function.update_of_ne hn]
      · exact hother (Option.any (·.disabled = some true)) rfl n
      · exact hother (Option.bind · (·.position)) rfl n
      · exact hother (Option.bind · (·.size)) rfl n

/-- `write_disabled` changes whether it is turned off. -/
theorem writeDisabled_spec (hf : f.Valid) {name : String} {disabled : Bool}
    (hlisted : name ∈ f.names) (h : f.writeDisabled name disabled = some f') :
    f'.Valid ∧ f'.names = f.names ∧ f'.settings
      = { f.settings with disabled := Function.update f.settings.disabled name disabled } := by
  obtain ⟨hnames, htable, hrest⟩ := editScreens_spec (fun e => by split <;> rfl) h
  -- what `writeDisabled` does not write is the same in every table
  have hother : ∀ {V : Type} (g : ScreenEntry → Option V),
      (∀ e off, g { e with disabled := off } = g e) →
      ∀ n, (f'.table? n).bind g = (f.table? n).bind g := by
    intro V g hg n
    rw [htable]
    cases f.table? n with
    | none => rfl
    | some e =>
      show g (if e.name = name then _ else e) = g e
      split
      · exact hg e _
      · rfl
  refine ⟨hf.of_names hnames (by rw [hrest]), hnames, ?_⟩
  refine Settings.ext (funext fun n => ?_) (funext fun n => ?_) (funext fun n => ?_)
    (funext fun n => ?_) ?_
  -- trust, then the disabled screens, then positions and sizes
  · exact hother _ (fun _ _ => rfl) n
  · show (f'.table? n).any _
      = Function.update (fun n => (f.table? n).any (·.disabled = some true)) name disabled n
    rw [htable]
    -- the name written, or another
    by_cases hn : n = name
    · subst hn
      obtain ⟨e, he⟩ := mem_names_iff.mp hlisted
      have hename : e.name = n := by simpa using List.find?_some he
      rw [he, Function.update_self]
      cases disabled <;> simp [hename]
    · rw [Function.update_of_ne hn]
      cases htab : f.table? n with
      | none => rfl
      | some e =>
        have hename : e.name = n := by simpa using List.find?_some htab
        simp [hename, hn]
  · exact hother _ (fun _ _ => rfl) n
  · exact hother _ (fun _ _ => rfl) n
  · rw [hrest]
    rfl

/-- `write_layout` changes the positions and the sizes. -/
theorem writeLayout_spec (hf : f.Valid) {positions : Dict String Point} {sizes : Dict String Size}
    (hsuits : f.Suits (.layout positions sizes)) (h : f.writeLayout positions sizes = some f') :
    f'.Valid ∧ f'.names = f.names
      ∧ f'.settings = { f.settings with positions := positions.get?, sizes := sizes.get? } := by
  obtain ⟨hnames, htable, hrest⟩ := editScreens_spec
    (fun e => by cases positions.get? e.name <;> (dsimp only; cases sizes.get? e.name <;> rfl)) h
  obtain ⟨hplaced, hsized, hunplaced⟩ := hsuits
  refine ⟨hf.of_names hnames (by rw [hrest]), hnames, ?_⟩
  -- setting by setting: trust and the disabled screens are not written
  refine Settings.ext (funext fun n => ?_) (funext fun n => ?_) (funext fun n => ?_)
    (funext fun n => ?_) ?_
  · show (f'.table? n).bind _ = (f.table? n).bind _
    rw [htable]
    cases f.table? n with
    | none => rfl
    | some e =>
      simp only [Option.map_some, Option.bind_some]
      cases positions.get? e.name <;> (dsimp only; cases sizes.get? e.name <;> rfl)
  · show (f'.table? n).any _ = (f.table? n).any _
    rw [htable]
    cases f.table? n with
    | none => rfl
    | some e =>
      simp only [Option.map_some, Option.any_some]
      cases positions.get? e.name <;> (dsimp only; cases sizes.get? e.name <;> rfl)
  -- a position: where a name has one it has a table, and where it has none it had none before
  · show (f'.table? n).bind _ = positions.get? n
    rw [htable]
    cases htab : f.table? n with
    | none =>
      cases hp : positions.get? n with
      | none => rfl
      | some p =>
        obtain ⟨e, he⟩ := mem_names_iff.mp (hplaced n (by rw [hp]; nofun))
        rw [htab] at he
        cases he
    | some e =>
      have hename : e.name = n := by simpa using List.find?_some htab
      simp only [Option.map_some, Option.bind_some]
      rw [hename]
      cases hp : positions.get? n with
      | none =>
        have hwas : e.position = none := by
          have hnone := hunplaced n hp
          simpa [settings, htab] using hnone
        refine Eq.trans ?_ hwas
        dsimp only
        cases sizes.get? e.name <;> rfl
      | some p => cases sizes.get? n <;> rfl
  -- a size, and one that is written is positive
  · show (f'.table? n).bind _ = sizes.get? n
    rw [htable]
    cases htab : f.table? n with
    | none =>
      cases hs : sizes.get? n with
      | none => rfl
      | some s =>
        obtain ⟨e, he⟩ := mem_names_iff.mp (hsized n s hs).1
        rw [htab] at he
        cases he
    | some e =>
      have hename : e.name = n := by simpa using List.find?_some htab
      simp only [Option.map_some, Option.bind_some]
      cases hs : sizes.get? n with
      | none => cases positions.get? e.name <;> simp [ScreenEntry.size, hename, hs]
      | some s =>
        have hpos := (hsized n s hs).2
        cases positions.get? e.name <;> simp [ScreenEntry.size, hename, hs, hpos]
  · rw [hrest]
    rfl

/-- A value that is written only where it is not the default is read back. -/
theorem keep_getD {V : Type} [DecidableEq V] (v default_ : V) :
    (keep v default_).getD default_ = v := by
  unfold keep
  split
  · next h => exact h.symm
  · rfl

/-- `write_tuning` changes the tuning and nothing else. -/
theorem writeTuning_spec (hf : f.Valid) {t : Tuning} (h : f.writeTuning t = some f') :
    f'.Valid ∧ f'.names = f.names ∧ f'.settings = { f.settings with tuning := t } := by
  cases h
  refine ⟨⟨hf.screens, hf.nodup, hf.screen⟩, rfl, ?_⟩
  refine Settings.ext rfl rfl rfl rfl ?_
  -- an empty table is left out, and reads as one with nothing in it
  have hempty : ∀ opt : OptionsSection, (if opt = {} then none else some opt).getD {} = opt := by
    intro opt
    split
    · next h => exact h.symm
    · rfl
  have hport : ((if f.listen.isSome || t.port ≠ defaultListen.port
      then some ⟨(f.listen.getD defaultListen).ip, t.port⟩ else f.listen).getD defaultListen).port
      = t.port := by
    split
    · rfl
    · next hnone =>
      cases hlisten : f.listen with
      | none =>
        have hport : t.port = defaultListen.port := by simpa [hlisten] using hnone
        exact hport.symm
      | some a => simp [hlisten] at hnone
  show Tuning.of (config _ "") = t
  unfold Tuning.of config
  simp only [hempty, OptionsSection.policy, OptionsSection.shared]
  have key : ∀ t' : Tuning, t'.port = t.port → { t with port := t'.port } = t := by
    rintro t' h
    rw [h]
  refine Eq.trans ?_ (key { port := _ } hport)
  congr 1 <;> exact keep_getD _ _

/-- **What an edit does to a file that has the tables for it is what the change means.** -/
theorem edit_spec (hf : f.Valid) {c : Change} (hsuits : f.Suits c) (h : c.edit f = some f') :
    f'.Valid ∧ f'.settings = c.apply f.settings ∧ (∀ n ∈ f.names, n ∈ f'.names)
      ∧ ∀ name fp listed previous, c = .trust name fp listed previous → name ∈ f'.names := by
  cases c with
  | trust name fp listed previous =>
    cases listed with
    | true =>
      obtain ⟨hvalid, hnames, hsettings⟩ := writeFingerprint_spec hf (fun _ => hsuits rfl) h
      refine ⟨hvalid, hsettings, fun n hn => hnames ▸ hn, ?_⟩
      rintro _ _ _ _ ⟨⟩
      exact hnames ▸ hsuits rfl
    | false =>
      obtain ⟨hvalid, hnames, hsettings⟩ := addScreenToConfig_spec hf h
      refine ⟨hvalid, hsettings, fun n hn => hnames ▸ List.mem_append_left _ hn, ?_⟩
      rintro _ _ _ _ ⟨⟩
      exact hnames ▸ List.mem_append_right _ (List.mem_singleton_self _)
  | untrust name old =>
    obtain ⟨hvalid, hnames, hsettings⟩ := writeFingerprint_spec hf (fun h => absurd rfl h) h
    exact ⟨hvalid, hsettings, fun n hn => hnames ▸ hn, nofun⟩
  | disable name disabled =>
    obtain ⟨hvalid, hnames, hsettings⟩ := writeDisabled_spec hf hsuits h
    exact ⟨hvalid, hsettings, fun n hn => hnames ▸ hn, nofun⟩
  | layout positions sizes =>
    obtain ⟨hvalid, hnames, hsettings⟩ := writeLayout_spec hf hsuits h
    exact ⟨hvalid, hsettings, fun n hn => hnames ▸ hn, nofun⟩
  | tuning t =>
    obtain ⟨hvalid, hnames, hsettings⟩ := writeTuning_spec hf h
    exact ⟨hvalid, hsettings, fun n hn => hnames ▸ hn, nofun⟩

end ConfigFile

end GeserDesk
