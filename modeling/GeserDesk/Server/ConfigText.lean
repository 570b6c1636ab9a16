import GeserDesk.Lib.Toml
import GeserDesk.Server.Admin
import Mathlib.Data.Nat.Pairing

/-!
# The config file as it is written

`Config::parse` and `write_tuning` in `geserdesk-server/src/config.rs`, from the document on: a text
and the document the TOML library makes of it stand for each other. `ConfigFile` has what the
calls of a running server change; here the shapes a person may write a section in are told apart.

How a socket address is written is the standard library's (`SocketText`).

* **`tuning_saved`**: the tuning form is saved, and nothing else changed, exactly if the sections
  it edits are written as tables of their own or not at all, and the listen address has no scope.
* **`inline_options_refused`**: a section written in one line.
-/

namespace GeserDesk

/-! ## Socket addresses

An address as it is typed, and as it is printed. -/

/-- A `SocketAddr`. The flow information of an IPv6 address cannot be written, and is 0. -/
inductive ListenAddr where
  | v4 (ip : BitVec 32) (port : Nat)
  | v6 (ip : BitVec 128) (port scope : Nat)
deriving DecidableEq

namespace ListenAddr

def port : ListenAddr → Nat
  | v4 _ port | v6 _ port _ => port

/-- `SocketAddr::new(a.ip(), port)`. -/
def newAt (a : ListenAddr) (port : Nat) : ListenAddr :=
  match a with
  | v4 ip _ => v4 ip port
  | v6 ip _ _ => v6 ip port 0

/-- The same address with another port. -/
def withPort (a : ListenAddr) (port : Nat) : ListenAddr :=
  match a with
  | v4 ip _ => v4 ip port
  | v6 ip _ scope => v6 ip port scope

/-- No scope: an IPv4 address, or an IPv6 one of no interface in particular. -/
def Unscoped : ListenAddr → Prop
  | v4 _ _ => True
  | v6 _ _ scope => scope = 0

instance : DecidablePred Unscoped := fun a => by
  unfold Unscoped
  split <;> infer_instance

/-- The port is a `u16`, the scope a `u32`. -/
def Typed : ListenAddr → Prop
  | v4 _ port => port < 2 ^ 16
  | v6 _ port scope => port < 2 ^ 16 ∧ scope < 2 ^ 32

instance : DecidablePred Typed := fun a => by
  unfold Typed
  split <;> infer_instance

/-- Writing the port anew drops what else the address says of its scope, so the two agree for
addresses that say nothing of it. -/
theorem newAt_eq_withPort_iff (a : ListenAddr) (port : Nat) :
    a.newAt port = a.withPort port ↔ a.Unscoped := by
  cases a with
  | v4 ip p => simp [newAt, withPort, Unscoped]
  | v6 ip p scope => simp [newAt, withPort, Unscoped, eq_comm]

/-- An address with another port is still one the text can say. -/
theorem typed_newAt {a : ListenAddr} {port : Nat} (hport : port < 2 ^ 16) :
    (a.newAt port).Typed := by
  cases a with
  | v4 ip p => exact hport
  | v6 ip p scope => exact ⟨hport, by decide⟩

/-- Of two ports set one after another the last one stays. -/
@[simp] theorem newAt_newAt (a : ListenAddr) (p q : Nat) : (a.newAt p).newAt q = a.newAt q := by
  cases a <;> rfl

/-- The port that was set is the one found. -/
@[simp] theorem port_newAt (a : ListenAddr) (p : Nat) : (a.newAt p).port = p := by cases a <;> rfl

end ListenAddr

/-- How the standard library writes and reads a socket address. -/
structure SocketText where
  print : ListenAddr → String
  parse : String → Option ListenAddr
  /-- What it writes, it reads. -/
  parse_print : ∀ a : ListenAddr, a.Typed → parse (print a) = some a

/-- `default_listen`: 0.0.0.0:24810. -/
def defaultListenAddr : ListenAddr := .v4 0 24810

/-! ## Reading the document

The raw tables of the document, field by field, with the types the reader insists on. -/

/-- One field of a struct: by its name from a table, or by its place from an array. -/
def structField (names : List String) (v : Toml) (name : String) : Option Toml :=
  match v with
  | .table t | .inlineTable t => Toml.Table.get? t name
  | .array items => items[names.idxOf name]?
  | _ => none

/-- A table, or an array with an item for every field (`short`: or with fewer). -/
def isStruct (names : List String) (short : Bool) : Toml → Bool
  | .table _ | .inlineTable _ => true
  | .array items => short || names.length ≤ items.length
  | _ => false

structure ServerSection where
  listen : Option String := none
  screen : Option String := none
  /-- The address of a page that no longer exists. -/
  ui : Option String := none
  tls : Option Bool := none

def ServerSection.fields : List String := ["listen", "screen", "ui", "tls"]

def ServerSection.read (v : Toml) : Option ServerSection := do
  if !isStruct fields false v then none
  let listen ← (structField fields v "listen").mapM Toml.asString
  let screen ← (structField fields v "screen").mapM Toml.asString
  let ui ← (structField fields v "ui").mapM Toml.asString
  let tls ← (structField fields v "tls").mapM Toml.asBoolean
  some { listen, screen, ui, tls }

def tomlI32 (v : Toml) : Option Int := v.asIntegerIn (-2147483648) 2147483647

def tomlU32 (v : Toml) : Option Nat := (v.asIntegerIn 0 4294967295).map Int.toNat

/-- A TOML integer has 64 bits with its sign. -/
def tomlU64 (v : Toml) : Option Nat := (v.asIntegerIn 0 9223372036854775807).map Int.toNat

/-- A `[[screens]]` table, its fingerprint still a text. -/
structure RawScreen where
  name : String
  x : Option Int
  y : Option Int
  w : Option Int
  h : Option Int
  fingerprint : Option String
  disabled : Option Bool

namespace RawScreen

def fields : List String := ["name", "x", "y", "w", "h", "fingerprint", "disabled"]

def read (v : Toml) : Option RawScreen := do
  if !isStruct fields false v then none
  let name ← (← structField fields v "name").asString
  let x ← (structField fields v "x").mapM tomlI32
  let y ← (structField fields v "y").mapM tomlI32
  let w ← (structField fields v "w").mapM tomlI32
  let h ← (structField fields v "h").mapM tomlI32
  let fingerprint ← (structField fields v "fingerprint").mapM Toml.asString
  let disabled ← (structField fields v "disabled").mapM Toml.asBoolean
  some { name, x, y, w, h, fingerprint, disabled }

/-- The entry, without its fingerprint. -/
def entry (s : RawScreen) : ScreenEntry where
  name := s.name
  x := s.x
  y := s.y
  w := s.w
  h := s.h
  disabled := s.disabled

end RawScreen

structure LinkEntry where
  left : Option String
  right : Option String
  up : Option String
  down : Option String

namespace LinkEntry

def fields : List String := ["left", "right", "up", "down"]

def read (v : Toml) : Option LinkEntry := do
  if !isStruct fields false v then none
  let left ← (structField fields v "left").mapM Toml.asString
  let right ← (structField fields v "right").mapM Toml.asString
  let up ← (structField fields v "up").mapM Toml.asString
  let down ← (structField fields v "down").mapM Toml.asString
  some { left, right, up, down }

def edges (l : LinkEntry) : List (Edge × String) :=
  [(Edge.left, l.left), (.right, l.right), (.top, l.up), (.bottom, l.down)].filterMap fun e =>
    e.2.map fun to_ => (e.1, to_)

end LinkEntry

def OptionsSection.fields : List String :=
  ["switch_delay_ms", "switch_double_tap_ms", "switch_corner_size", "jump_zone_size",
    "scroll_lock_locks", "clipboard_sharing", "clipboard_max_bytes", "clipboard_files",
    "clipboard_files_max_bytes", "screensaver_sync", "relative_mouse_moves"]

def OptionsSection.read (v : Toml) : Option OptionsSection := do
  if !isStruct fields true v then none
  let switchDelayMs ← (structField fields v "switch_delay_ms").mapM tomlU32
  let switchDoubleTapMs ← (structField fields v "switch_double_tap_ms").mapM tomlU32
  let switchCornerSize ← (structField fields v "switch_corner_size").mapM tomlI32
  let jumpZoneSize ← (structField fields v "jump_zone_size").mapM tomlI32
  let scrollLockLocks ← (structField fields v "scroll_lock_locks").mapM Toml.asBoolean
  let clipboardSharing ← (structField fields v "clipboard_sharing").mapM Toml.asBoolean
  let clipboardMaxBytes ← (structField fields v "clipboard_max_bytes").mapM tomlU64
  let clipboardFiles ← (structField fields v "clipboard_files").mapM Toml.asBoolean
  let clipboardFilesMaxBytes ← (structField fields v "clipboard_files_max_bytes").mapM tomlU64
  let screensaverSync ← (structField fields v "screensaver_sync").mapM Toml.asBoolean
  let relativeMouseMoves ← (structField fields v "relative_mouse_moves").mapM Toml.asBoolean
  some { switchDelayMs, switchDoubleTapMs, switchCornerSize, jumpZoneSize, scrollLockLocks,
         clipboardSharing, clipboardMaxBytes, clipboardFiles, clipboardFilesMaxBytes,
         screensaverSync, relativeMouseMoves }

structure RawConfig where
  server : Option ServerSection
  screens : List RawScreen
  /-- A `BTreeMap`: by name. -/
  links : List (String × LinkEntry)
  options : Option OptionsSection

namespace RawConfig

def readScreens (doc : Toml.Table) : Option (List RawScreen) :=
  match doc.get? "screens" with
  | some v => do (← v.asArray).mapM RawScreen.read
  | none => some []

def readLinks (doc : Toml.Table) : Option (List (String × LinkEntry)) :=
  match doc.get? "links" with
  | some v => do
    let links ← (← v.asTable).mapM fun e => (LinkEntry.read e.2).map fun l => (e.1, l)
    some (links.mergeSort fun a b => a.1 ≤ b.1)
  | none => some []

def read (doc : Toml.Table) : Option RawConfig := do
  let server ← (doc.get? "server").mapM ServerSection.read
  let screens ← readScreens doc
  let links ← readLinks doc
  let options ← (doc.get? "options").mapM OptionsSection.read
  some { server, screens, links, options }

end RawConfig

inductive ConfigProblem where
  | toml
  | listenAddr (addr : String)
  | fingerprint (screen : String)
  | noScreens
  | duplicateScreen (name : String)
  | unknownLocalScreen (name : String)
  | unknownScreen (from_ to_ undefined : String)
deriving DecidableEq

/-! ## What a config says

The checks over the raw tables, and the configuration they give. -/

/-- `Layout::link`. -/
def Layout.link (l : Layout) (from_ : String) (edge : Edge) (to_ : String) :
    Except ConfigProblem Layout :=
  match [from_, to_].find? fun name => !l.hasScreen name with
  | some name => .error (.unknownScreen from_ to_ name)
  | none => .ok { l with
      links := l.links.put from_ (((l.links.get? from_).getD ∅).put edge to_) }

/-- The first name that came before. -/
def secondOf (seen : List String) : List String → Option String
  | [] => none
  | n :: ns => if n ∈ seen then some n else secondOf (seen ++ [n]) ns

/-- What the screens and the links say. -/
structure ScreenSetup where
  localScreen : String
  positions : Dict String Point
  sizes : Dict String Size
  trusted : Dict String Fingerprint
  disabled : Finset String
  layout : Layout

/-- The checks of screens, links and the local screen. -/
def ScreenSetup.check (screens : List RawScreen) (links : List (String × LinkEntry))
    (screen : Option String) : Except ConfigProblem ScreenSetup := do
  let names := screens.map (·.name)
  if screens.isEmpty then throw .noScreens
  if let some name := secondOf [] names then throw (.duplicateScreen name)
  let localScreen ← match screen with
    | some name => if name ∈ names then pure name else throw (.unknownLocalScreen name)
    | none => pure (names.headD "")
  let entries := screens.map (·.entry)
  let trusted ← screens.foldlM (fun m s =>
    match s.fingerprint with
    | some text =>
      match parseFingerprint text with
      | some fp => pure (m.put s.name fp)
      | none => throw (.fingerprint s.name)
    | none => pure m) (∅ : Dict String Fingerprint)
  let layout ← links.foldlM (fun l e =>
    e.2.edges.foldlM (fun l edge => l.link e.1 edge.1 edge.2) l) ({ screens := names } : Layout)
  pure {
    localScreen
    positions := collect (entries.filterMap fun e => e.position.map fun p => (e.name, p))
    sizes := collect (entries.filterMap fun e => e.size.map fun s => (e.name, s))
    trusted
    disabled := ((screens.filter (·.disabled = some true)).map (·.name)).toFinset
    layout }

/-- A parsed and validated configuration. -/
structure ServerConfig where
  listen : ListenAddr
  setup : ScreenSetup
  tls : Bool
  policy : SwitchPolicy
  options : Options

namespace ServerConfig

variable (sockets : SocketText)

def ofRaw (raw : RawConfig) : Except ConfigProblem ServerConfig := do
  let listenStr := (raw.server.bind (·.listen)).getD (sockets.print defaultListenAddr)
  let listen ← match sockets.parse listenStr with
    | some listen => pure listen
    | none => throw (.listenAddr listenStr)
  let setup ← ScreenSetup.check raw.screens raw.links (raw.server.bind (·.screen))
  let opt := raw.options.getD {}
  pure {
    listen
    setup
    tls := (raw.server.bind (·.tls)).getD true
    policy := opt.policy
    options := opt.shared }

/-- `Config::parse`. -/
def parse (doc : Toml.Table) : Except ConfigProblem ServerConfig :=
  match RawConfig.read doc with
  | some raw => ofRaw sockets raw
  | none => .error .toml

/-- `Tuning::of`. -/
def tuning (config : ServerConfig) : Tuning where
  port := config.listen.port
  switchDelayMs := config.policy.delayMs
  switchDoubleTapMs := config.policy.doubleTapMs
  switchCornerSize := config.policy.cornerSize
  jumpZoneSize := config.policy.jumpZone
  scrollLockLocks := config.policy.scrollLockLocks
  clipboardSharing := config.options.clipboardSharing
  clipboardFiles := config.options.clipboardFiles

end ServerConfig

/-! ## Saving the tuning form -/

open ConfigFile (keep)

/-- A tuning form: its numbers have the widths of their types. -/
structure TuningForm where
  tuning : Tuning
  port_lt : tuning.port < 2 ^ 16
  switchDelayMs_lt : tuning.switchDelayMs < 2 ^ 32
  switchDoubleTapMs_lt : tuning.switchDoubleTapMs < 2 ^ 32
  switchCornerSize_lt : tuning.switchCornerSize < 2 ^ 31
  jumpZoneSize_lt : tuning.jumpZoneSize < 2 ^ 31

/-- What each option is set to: nothing, for its default. -/
def Tuning.entries (t : Tuning) : List (String × Option Toml) :=
  let def_ : Tuning := {}
  [("switch_delay_ms",
      (keep t.switchDelayMs def_.switchDelayMs).map fun v : Nat => .integer v),
    ("switch_double_tap_ms",
      (keep t.switchDoubleTapMs def_.switchDoubleTapMs).map fun v : Nat => .integer v),
    ("switch_corner_size", (keep t.switchCornerSize def_.switchCornerSize).map .integer),
    ("jump_zone_size", (keep t.jumpZoneSize def_.jumpZoneSize).map .integer),
    ("scroll_lock_locks", (keep t.scrollLockLocks def_.scrollLockLocks).map .boolean),
    ("clipboard_sharing", (keep t.clipboardSharing def_.clipboardSharing).map .boolean),
    ("clipboard_files", (keep t.clipboardFiles def_.clipboardFiles).map .boolean)]

inductive TuningError where
  /-- `Tuning::check`. -/
  | unusable
  | notATable (name : String)

/-- The table `name` of the document; an empty one, if there is none. -/
def tableOf (doc : Toml.Table) (name : String) : Except TuningError Toml.Table :=
  match doc.get? name with
  | none => .ok []
  | some (.table t) => .ok t
  | some _ => .error (.notATable name)

/-- The table with the options of the form. -/
def withOptions (options : Toml.Table) (t : Tuning) : Toml.Table := options.setAll t.entries

section Writing

variable (sockets : SocketText)

/-- The address `[server] listen` has now; with none, it listens everywhere. -/
def hostOf (server : Toml.Table) : ListenAddr :=
  (((server.get? "listen").bind Toml.asString).bind sockets.parse).getD defaultListenAddr

/-- The table with the port of the form. -/
def withListen (server : Toml.Table) (t : Tuning) : Toml.Table :=
  let listen := (hostOf sockets server).newAt t.port
  if (server.get? "listen").isSome || t.port ≠ ({} : Tuning).port then
    server.insert "listen" (.string (sockets.print listen))
  else server

/-- `write_tuning`. -/
def writeTuning (doc : Toml.Table) (t : Tuning) : Except TuningError Toml.Table := do
  if !t.check then throw .unusable
  let server ← tableOf doc "server"
  let doc := doc.insert "server" (.table (withListen sockets server t))
  let options ← tableOf doc "options"
  let options := withOptions options t
  pure (if options.isEmpty then doc.remove "options" else doc.insert "options" (.table options))

end Writing

/-! ## What is read again

The edited tables are read as the form has them, and every other field as it was. -/

/-- No option is written under two keys. -/
theorem entries_keys_nodup (t : Tuning) : (t.entries.map (·.1)).Nodup := by
  simp [Tuning.entries]

/-- An option that is written has the value it is given. -/
@[simp] theorem get?_withOptions_of_mem {t : Tuning} {e : String × Option Toml}
    (h : e ∈ t.entries) (options : Toml.Table) : (withOptions options t).get? e.1 = e.2 :=
  Toml.Table.get?_setAll_of_mem (entries_keys_nodup t) h options

/-- A key that is no option keeps its value. -/
theorem get?_withOptions_of_notMem {t : Tuning} {k : String} (h : k ∉ t.entries.map (·.1))
    (options : Toml.Table) : (withOptions options t).get? k = options.get? k :=
  Toml.Table.get?_setAll_of_notMem h options

/-- An option is read as what was kept of it. -/
theorem mapM_keep {V : Type} [DecidableEq V] {v default_ : V} {write : V → Toml}
    {read : Toml → Option V} (h : read (write v) = some v) :
    ((keep v default_).map write).mapM read = some (keep v default_) := by
  unfold keep
  split
  · rfl
  · simp [h]

/-- The section with the form's options. -/
def OptionsSection.tuned (opt : OptionsSection) (t : Tuning) : OptionsSection :=
  let def_ : Tuning := {}
  { opt with
    switchDelayMs := keep t.switchDelayMs def_.switchDelayMs
    switchDoubleTapMs := keep t.switchDoubleTapMs def_.switchDoubleTapMs
    switchCornerSize := keep t.switchCornerSize def_.switchCornerSize
    jumpZoneSize := keep t.jumpZoneSize def_.jumpZoneSize
    scrollLockLocks := keep t.scrollLockLocks def_.scrollLockLocks
    clipboardSharing := keep t.clipboardSharing def_.clipboardSharing
    clipboardFiles := keep t.clipboardFiles def_.clipboardFiles }

/-- An `[options]` table is read if and only if each key is, by itself. -/
theorem OptionsSection.read_table_iff {options : Toml.Table} {opt : OptionsSection} :
    OptionsSection.read (.table options) = some opt ↔
      (options.get? "switch_delay_ms").mapM tomlU32 = some opt.switchDelayMs
        ∧ (options.get? "switch_double_tap_ms").mapM tomlU32 = some opt.switchDoubleTapMs
        ∧ (options.get? "switch_corner_size").mapM tomlI32 = some opt.switchCornerSize
        ∧ (options.get? "jump_zone_size").mapM tomlI32 = some opt.jumpZoneSize
        ∧ (options.get? "scroll_lock_locks").mapM Toml.asBoolean = some opt.scrollLockLocks
        ∧ (options.get? "clipboard_sharing").mapM Toml.asBoolean = some opt.clipboardSharing
        ∧ (options.get? "clipboard_max_bytes").mapM tomlU64 = some opt.clipboardMaxBytes
        ∧ (options.get? "clipboard_files").mapM Toml.asBoolean = some opt.clipboardFiles
        ∧ (options.get? "clipboard_files_max_bytes").mapM tomlU64 = some opt.clipboardFilesMaxBytes
        ∧ (options.get? "screensaver_sync").mapM Toml.asBoolean = some opt.screensaverSync
        ∧ (options.get? "relative_mouse_moves").mapM Toml.asBoolean
          = some opt.relativeMouseMoves := by
  simp only [OptionsSection.read, isStruct, structField, Bool.not_true, Bool.false_eq_true,
    if_false, Option.bind_eq_bind, Option.bind_eq_some_iff, Option.some.injEq]
  constructor
  · rintro ⟨_, h₁, _, h₂, _, h₃, _, h₄, _, h₅, _, h₆, _, h₇, _, h₈, _, h₉, _, h₁₀, _, h₁₁, rfl⟩
    exact ⟨h₁, h₂, h₃, h₄, h₅, h₆, h₇, h₈, h₉, h₁₀, h₁₁⟩
  · rintro ⟨h₁, h₂, h₃, h₄, h₅, h₆, h₇, h₈, h₉, h₁₀, h₁₁⟩
    exact ⟨_, h₁, _, h₂, _, h₃, _, h₄, _, h₅, _, h₆, _, h₇, _, h₈, _, h₉, _, h₁₀, _, h₁₁, rfl⟩

/-- A number below 2^32 is read as it is written. -/
theorem tomlU32_integer {n : Nat} (h : n < 2 ^ 32) : tomlU32 (.integer n) = some n := by
  rw [tomlU32, Toml.asIntegerIn_integer (by omega) (by omega)]
  rfl

/-- An integer within `i32` is read as it is written. -/
theorem tomlI32_integer {i : Int} (hlo : 0 ≤ i) (hhi : i < 2 ^ 31) :
    tomlI32 (.integer i) = some i :=
  Toml.asIntegerIn_integer (by omega) (by omega)

/-- What is read after the options have been written is what was read before, with the tuning in
place of its own keys. -/
theorem read_withOptions {options : Toml.Table} {opt : OptionsSection} (form : TuningForm)
    (hcheck : form.tuning.check = true) (h : OptionsSection.read (.table options) = some opt) :
    OptionsSection.read (.table (withOptions options form.tuning))
      = some (opt.tuned form.tuning) := by
  obtain ⟨t, hport, hdelay, htap, hcorner, hjump⟩ := form
  dsimp only at hcheck hdelay htap hcorner hjump ⊢
  simp only [Tuning.check, Bool.and_eq_true, decide_eq_true_eq] at hcheck
  obtain ⟨⟨-, hjump₀⟩, hcorner₀⟩ := hcheck
  have hset : ∀ e ∈ t.entries, (withOptions options t).get? e.1 = e.2 :=
    fun e he => get?_withOptions_of_mem he options
  have hkept : ∀ k ∉ t.entries.map (·.1), (withOptions options t).get? k = options.get? k :=
    fun k hk => get?_withOptions_of_notMem hk options
  rw [OptionsSection.read_table_iff] at h ⊢
  obtain ⟨-, -, -, -, -, -, h₇, -, h₉, h₁₀, h₁₁⟩ := h
  simp only [Tuning.entries, List.forall_mem_cons] at hset
  obtain ⟨k₁, k₂, k₃, k₄, k₅, k₆, k₈, -⟩ := hset
  rw [k₁, k₂, k₃, k₄, k₅, k₆, k₈, hkept _ (by simp [Tuning.entries]),
    hkept _ (by simp [Tuning.entries]), hkept _ (by simp [Tuning.entries]),
    hkept _ (by simp [Tuning.entries])]
  exact ⟨mapM_keep (tomlU32_integer hdelay), mapM_keep (tomlU32_integer htap),
    mapM_keep (tomlI32_integer hcorner₀ hcorner),
    mapM_keep (tomlI32_integer (by omega) hjump), mapM_keep rfl, mapM_keep rfl, h₇,
    mapM_keep rfl, h₉, h₁₀, h₁₁⟩

/-- A `[server]` table is read if and only if each key is, by itself. -/
theorem ServerSection.read_table_iff {server : Toml.Table} {sec : ServerSection} :
    ServerSection.read (.table server) = some sec ↔
      (server.get? "listen").mapM Toml.asString = some sec.listen
        ∧ (server.get? "screen").mapM Toml.asString = some sec.screen
        ∧ (server.get? "ui").mapM Toml.asString = some sec.ui
        ∧ (server.get? "tls").mapM Toml.asBoolean = some sec.tls := by
  simp only [ServerSection.read, isStruct, structField, Bool.not_true, Bool.false_eq_true,
    if_false, Option.bind_eq_bind, Option.bind_eq_some_iff, Option.some.injEq]
  constructor
  · rintro ⟨_, h₁, _, h₂, _, h₃, _, h₄, rfl⟩
    exact ⟨h₁, h₂, h₃, h₄⟩
  · rintro ⟨h₁, h₂, h₃, h₄⟩
    exact ⟨_, h₁, _, h₂, _, h₃, _, h₄, rfl⟩

/-- A section that is read and can be edited is read from the table that is edited. -/
theorem read_tableOf {doc : Toml.Table} {name : String} {t : Toml.Table} {S : Type}
    {read : Toml → Option S} {sec : Option S} (default_ : S)
    (hempty : read (.table []) = some default_) (htable : tableOf doc name = .ok t)
    (h : (doc.get? name).mapM read = some sec) : read (.table t) = some (sec.getD default_) := by
  unfold tableOf at htable
  split at htable
  · next hnone =>
    cases htable
    rw [hnone] at h
    cases h
    exact hempty
  · next t' hsome =>
    cases htable
    rw [hsome, Option.mapM_some, Option.map_eq_map, Option.map_eq_some_iff] at h
    obtain ⟨v, hv, rfl⟩ := h
    exact hv
  · cases htable

section Reading

variable {sockets : SocketText}

/-- The address in force is the one in the table. -/
theorem hostOf_eq {server : Toml.Table} {sec : ServerSection} {a : ListenAddr}
    (hread : ServerSection.read (.table server) = some sec)
    (ha : sockets.parse (sec.listen.getD (sockets.print defaultListenAddr)) = some a) :
    hostOf sockets server = a := by
  have hlisten := (ServerSection.read_table_iff.mp hread).1
  unfold hostOf
  cases hget : server.get? "listen" with
  | none =>
    rw [hget] at hlisten
    cases hsec : sec.listen with
    | none =>
      rw [hsec, Option.getD_none, sockets.parse_print _ (by decide)] at ha
      exact Option.some.inj ha
    | some s => rw [hsec] at hlisten; cases hlisten
  | some v =>
    rw [hget, Option.mapM_some, Option.map_eq_map, Option.map_eq_some_iff] at hlisten
    obtain ⟨s, hs, hsec⟩ := hlisten
    rw [← hsec, Option.getD_some] at ha
    rw [Option.bind_some, hs, Option.bind_some, ha, Option.getD_some]

/-- What is read of the table with the form's port. -/
theorem read_withListen {server : Toml.Table} {sec : ServerSection} {a : ListenAddr}
    (form : TuningForm) (hread : ServerSection.read (.table server) = some sec)
    (ha : sockets.parse (sec.listen.getD (sockets.print defaultListenAddr)) = some a) :
    ∃ listen, ServerSection.read (.table (withListen sockets server form.tuning))
        = some { sec with listen := listen }
      ∧ sockets.parse (listen.getD (sockets.print defaultListenAddr))
        = some (a.newAt form.tuning.port) := by
  have hparse := sockets.parse_print _ (ListenAddr.typed_newAt (a := a) form.port_lt)
  unfold withListen
  rw [hostOf_eq hread ha]
  dsimp only
  split
  · refine ⟨some (sockets.print (a.newAt form.tuning.port)), ?_, hparse⟩
    rw [ServerSection.read_table_iff] at hread ⊢
    obtain ⟨-, hscreen, hui, htls⟩ := hread
    refine ⟨by simp, ?_, ?_, ?_⟩
    · rw [Toml.Table.get?_insert, if_neg (by decide)]; exact hscreen
    · rw [Toml.Table.get?_insert, if_neg (by decide)]; exact hui
    · rw [Toml.Table.get?_insert, if_neg (by decide)]; exact htls
  · next hleft =>
    -- nothing is there, and nothing has to be
    simp only [Bool.or_eq_true, decide_eq_true_eq, not_or, Bool.not_eq_true,
      Option.isSome_eq_false_iff, Option.isNone_iff_eq_none, ne_eq, not_not] at hleft
    obtain ⟨hnone, hport⟩ := hleft
    refine ⟨sec.listen, hread, ?_⟩
    have hlisten := (ServerSection.read_table_iff.mp hread).1
    rw [hnone] at hlisten
    have hsec : sec.listen = none := (Option.some.inj hlisten).symm
    rw [hsec, Option.getD_none] at ha ⊢
    rw [sockets.parse_print _ (by decide)] at ha ⊢
    obtain rfl := Option.some.inj ha
    rw [hport]
    rfl

/-- The address is read off the `listen` key. -/
theorem hostOf_insert {server : Toml.Table} {s : String} {a : ListenAddr}
    (h : sockets.parse s = some a) : hostOf sockets (server.insert "listen" (.string s)) = a := by
  simp [hostOf, h]

/-- Saving the same port again changes nothing. -/
theorem withListen_again (server : Toml.Table) (form : TuningForm) :
    withListen sockets (withListen sockets server form.tuning) form.tuning
      = withListen sockets server form.tuning := by
  unfold withListen
  by_cases h : ((server.get? "listen").isSome
      || decide (form.tuning.port ≠ ({} : Tuning).port)) = true
  · have hparse := sockets.parse_print _
      (ListenAddr.typed_newAt (a := hostOf sockets server) form.port_lt)
    simp only [h, if_true]
    rw [hostOf_insert hparse, ListenAddr.newAt_newAt]
    simp only [Toml.Table.get?_insert, if_true, Option.isSome_some, Bool.true_or]
    exact Toml.Table.insert_of_get? (by simp)
  · simp only [h, if_false, Bool.false_eq_true]

/-! ## What is saved

The form is saved exactly when the document can take it, and then reading gives the form back. -/

/-- The config with the settings of the form, and everything else as it is. -/
def ServerConfig.tuned (c : ServerConfig) (t : Tuning) (listen : ListenAddr) : ServerConfig :=
  { c with
    listen := listen
    policy := ⟨t.switchDelayMs, t.switchDoubleTapMs, t.switchCornerSize, t.jumpZoneSize,
      t.scrollLockLocks⟩
    options := { c.options with
      clipboardSharing := t.clipboardSharing
      scrollLockLocks := t.scrollLockLocks
      clipboardFiles := t.clipboardFiles } }

/-- The document with the settings of the form in its two tables. -/
def edited (sockets : SocketText) (doc server options : Toml.Table) (t : Tuning) : Toml.Table :=
  let doc := doc.insert "server" (.table (withListen sockets server t))
  if (withOptions options t).isEmpty then doc.remove "options"
  else doc.insert "options" (.table (withOptions options t))

/-- `write_tuning` succeeds if and only if the tuning passes its check and both tables are tables,
or absent. -/
theorem writeTuning_eq_ok_iff {doc doc' : Toml.Table} {t : Tuning} :
    writeTuning sockets doc t = .ok doc' ↔ t.check = true ∧ ∃ server options,
      tableOf doc "server" = .ok server ∧ tableOf doc "options" = .ok options
        ∧ doc' = edited sockets doc server options t := by
  have hother : ∀ v, tableOf (doc.insert "server" v) "options" = tableOf doc "options" := by
    intro v
    simp [tableOf]
  unfold writeTuning edited
  cases hcheck : t.check with
  | false => simp [bind, Except.bind, throw, throwThe, MonadExceptOf.throw]
  | true =>
    cases hserver : tableOf doc "server" with
    | error e => simp [bind, Except.bind]
    | ok server =>
      cases hoptions : tableOf doc "options" with
      | error e => simp [bind, Except.bind, hother, hoptions]
      | ok options =>
        simp only [bind, Except.bind, pure, Except.pure, hother, hoptions, Bool.not_true,
          Bool.false_eq_true, if_false, true_and]
        constructor
        · intro h
          exact ⟨server, options, rfl, rfl, (Except.ok.inj h).symm⟩
        · rintro ⟨server', options', h, h', rfl⟩
          cases h
          cases h'
          rfl

/-- What the edited document holds under each key: the two tables are rewritten and nothing else is.
-/
theorem get?_edited (doc server options : Toml.Table) (t : Tuning) (k : String) :
    (edited sockets doc server options t).get? k =
      if k = "options" then
        if (withOptions options t).isEmpty then none else some (.table (withOptions options t))
      else if k = "server" then some (.table (withListen sockets server t))
      else doc.get? k := by
  unfold edited
  dsimp only
  split <;> simp

/-- What is read of a document with the settings of the form. -/
theorem read_edited {doc server options : Toml.Table} {raw : RawConfig} {a : ListenAddr}
    (form : TuningForm) (hcheck : form.tuning.check = true) (hraw : RawConfig.read doc = some raw)
    (hserver : tableOf doc "server" = .ok server) (hoptions : tableOf doc "options" = .ok options)
    (ha : sockets.parse ((raw.server.bind (·.listen)).getD (sockets.print defaultListenAddr))
      = some a) :
    ∃ raw' listen, RawConfig.read (edited sockets doc server options form.tuning) = some raw'
      ∧ raw'.server = some { raw.server.getD {} with listen := listen }
      ∧ raw'.screens = raw.screens ∧ raw'.links = raw.links
      ∧ raw'.options.getD {} = (raw.options.getD {}).tuned form.tuning
      ∧ sockets.parse (listen.getD (sockets.print defaultListenAddr))
        = some (a.newAt form.tuning.port) := by
  unfold RawConfig.read at hraw
  simp only [Option.bind_eq_bind, Option.bind_eq_some_iff, Option.some.injEq] at hraw
  obtain ⟨sec, hsec, screens, hscreens, links, hlinks, opt, hopt, rfl⟩ := hraw
  have hread := read_tableOf ({} : ServerSection) rfl hserver hsec
  have hreadOptions := read_withOptions form hcheck
    (read_tableOf ({} : OptionsSection) rfl hoptions hopt)
  have ha' : sockets.parse ((sec.getD {}).listen.getD (sockets.print defaultListenAddr))
      = some a := by
    cases sec <;> exact ha
  obtain ⟨listen, hlisten, hparse⟩ := read_withListen form hread ha'
  have hscreens' : RawConfig.readScreens (edited sockets doc server options form.tuning)
      = some screens := by
    rw [← hscreens]
    simp [RawConfig.readScreens, get?_edited]
  have hlinks' : RawConfig.readLinks (edited sockets doc server options form.tuning)
      = some links := by
    rw [← hlinks]
    simp [RawConfig.readLinks, get?_edited]
  let options' := withOptions options form.tuning
  refine ⟨⟨some { sec.getD {} with listen := listen }, screens, links,
    if options'.isEmpty then none else some ((opt.getD {}).tuned form.tuning)⟩, listen, ?_, rfl,
    rfl, rfl, ?_, hparse⟩
  · unfold RawConfig.read
    simp only [get?_edited, if_true, hscreens', hlinks']
    by_cases hempty : (withOptions options form.tuning).isEmpty = true
    · simp [hempty, hlisten, options']
    · simp [hempty, hlisten, hreadOptions, options']
  · by_cases hempty : (withOptions options form.tuning).isEmpty = true
    · -- nothing is written: everything is as by default
      rw [List.isEmpty_iff.mp hempty] at hreadOptions
      simp only [options', hempty, if_true, Option.getD_none]
      exact Option.some.inj hreadOptions
    · simp [options', hempty]

/-- A document that has been read is a config if and only if its address, its screens and its links
are in order. -/
theorem ofRaw_eq_ok_iff {raw : RawConfig} {c : ServerConfig} :
    ServerConfig.ofRaw sockets raw = .ok c ↔
      sockets.parse ((raw.server.bind (·.listen)).getD (sockets.print defaultListenAddr))
          = some c.listen
        ∧ ScreenSetup.check raw.screens raw.links (raw.server.bind (·.screen)) = .ok c.setup
        ∧ (raw.server.bind (·.tls)).getD true = c.tls
        ∧ (raw.options.getD {}).policy = c.policy ∧ (raw.options.getD {}).shared = c.options := by
  unfold ServerConfig.ofRaw
  cases hlisten : sockets.parse
      ((raw.server.bind (·.listen)).getD (sockets.print defaultListenAddr)) with
  | none => simp [hlisten, bind, Except.bind, throw, throwThe, MonadExceptOf.throw]
  | some listen =>
    cases hsetup : ScreenSetup.check raw.screens raw.links (raw.server.bind (·.screen)) with
    | error e => simp [hlisten, bind, Except.bind, pure, Except.pure]
    | ok setup =>
      obtain ⟨listen', setup', tls, policy, options⟩ := c
      simp only [hlisten, bind, Except.bind, pure, Except.pure, Except.ok.injEq,
        Option.some.injEq, ServerConfig.mk.injEq]

/-- The document with the settings of the form says what the form says. -/
theorem parse_edited {doc server options : Toml.Table} {c : ServerConfig} (form : TuningForm)
    (hcheck : form.tuning.check = true) (hc : ServerConfig.parse sockets doc = .ok c)
    (hserver : tableOf doc "server" = .ok server)
    (hoptions : tableOf doc "options" = .ok options) :
    ServerConfig.parse sockets (edited sockets doc server options form.tuning)
      = .ok (c.tuned form.tuning (c.listen.newAt form.tuning.port)) := by
  unfold ServerConfig.parse at hc
  split at hc
  case h_2 => cases hc
  next raw hraw =>
  obtain ⟨ha, hsetup, htls, hpolicy, hshared⟩ := ofRaw_eq_ok_iff.mp hc
  obtain ⟨raw', listen, hraw', hsec, hscreens, hlinks, hopt, hparse⟩ :=
    read_edited form hcheck hraw hserver hoptions ha
  have hkeep : ∀ {S : Type} (get : ServerSection → Option S), get {} = none →
      get (raw.server.getD {}) = raw.server.bind get := by
    intro S get hdefault
    cases raw.server with
    | none => exact hdefault
    | some sec => rfl
  unfold ServerConfig.parse
  rw [hraw']
  dsimp only
  rw [ofRaw_eq_ok_iff]
  refine ⟨?_, ?_, ?_, ?_, ?_⟩
  · rw [hsec]; exact hparse
  · rw [hscreens, hlinks, hsec, Option.bind_some]
    rw [← hkeep (·.screen) rfl] at hsetup
    exact hsetup
  · rw [hsec, Option.bind_some]
    rw [← hkeep (·.tls) rfl] at htls
    exact htls
  · rw [hopt]
    simp [OptionsSection.policy, OptionsSection.tuned, ServerConfig.tuned, ConfigFile.keep_getD]
  · rw [hopt, ServerConfig.tuned, ← hshared]
    simp [OptionsSection.shared, OptionsSection.policy, OptionsSection.tuned,
      ConfigFile.keep_getD]

/-- Saving the same form again changes nothing. -/
theorem writeTuning_again {doc server options : Toml.Table} (form : TuningForm)
    (hcheck : form.tuning.check = true) :
    let doc' := edited sockets doc server options form.tuning
    writeTuning sockets doc' form.tuning = .ok doc' := by
  intro doc'
  let options' := withOptions options form.tuning
  have hserver : tableOf doc' "server" = .ok (withListen sockets server form.tuning) := by
    simp [tableOf, doc', get?_edited]
  have hsame : doc'.insert "server" (.table (withListen sockets server form.tuning)) = doc' :=
    Toml.Table.insert_of_get? (by simp [doc', get?_edited])
  have hentries : ∀ e ∈ form.tuning.entries, options'.get? e.1 = e.2 :=
    fun e he => get?_withOptions_of_mem he options
  have hagain : withOptions options' form.tuning = options' :=
    Toml.Table.setAll_of_get? hentries
  rw [writeTuning_eq_ok_iff]
  by_cases hempty : options'.isEmpty = true
  · have hnil : options' = [] := List.isEmpty_iff.mp hempty
    have hget : doc'.get? "options" = none := by
      simp only [doc', get?_edited, if_true]
      exact if_pos hempty
    refine ⟨hcheck, _, [], hserver, by simp [tableOf, hget], ?_⟩
    unfold edited
    rw [withListen_again, hsame, ← hnil, hagain, if_pos hempty, Toml.Table.remove_of_get? hget]
  · have hget : doc'.get? "options" = some (.table options') := by
      simp only [doc', get?_edited, if_true]
      exact if_neg hempty
    refine ⟨hcheck, _, options', hserver, by simp [tableOf, hget], ?_⟩
    unfold edited
    rw [withListen_again, hsame, hagain, if_neg hempty, Toml.Table.insert_of_get? hget]

end Reading

/-- Saving the form succeeds, changes the settings it is about and nothing else, and changes
nothing when it is done again. -/
def TuningSaved (sockets : SocketText) (doc : Toml.Table) (c : ServerConfig) (t : Tuning) : Prop :=
  ∃ doc', writeTuning sockets doc t = .ok doc'
    ∧ (∃ c', ServerConfig.parse sockets doc' = .ok c' ∧ c'.tuning = t
      ∧ c' = c.tuned t (c.listen.withPort t.port))
    ∧ writeTuning sockets doc' t = .ok doc'

/-- `name` is written as a table of its own, with a header or with dotted keys, or not at all. -/
def OwnTable (doc : Toml.Table) (name : String) : Prop :=
  ∀ v, doc.get? name = some v → ∃ t, v = .table t

/-- A key holds a table of its own, or none yet, if and only if the edit finds a table there. -/
theorem ownTable_iff {doc : Toml.Table} {name : String} :
    OwnTable doc name ↔ ∃ t, tableOf doc name = .ok t := by
  unfold OwnTable tableOf
  cases hget : doc.get? name with
  | none => simp
  | some v => cases v <;> simp

/-- **The tuning form is saved** exactly if the two sections can be edited and the address it
keeps has no scope. -/
theorem tuning_saved {sockets : SocketText} {doc : Toml.Table} {c : ServerConfig}
    (form : TuningForm) (hcheck : form.tuning.check = true)
    (hc : ServerConfig.parse sockets doc = .ok c) :
    TuningSaved sockets doc c form.tuning
      ↔ OwnTable doc "server" ∧ OwnTable doc "options" ∧ c.listen.Unscoped := by
  constructor
  -- what is saved is in tables of its own, and an address that is read again has no scope
  · rintro ⟨doc', hwrite, ⟨c', hc', -, rfl⟩, -⟩
    obtain ⟨-, server, options, hserver, hoptions, rfl⟩ := writeTuning_eq_ok_iff.mp hwrite
    refine ⟨ownTable_iff.mpr ⟨server, hserver⟩, ownTable_iff.mpr ⟨options, hoptions⟩, ?_⟩
    rw [parse_edited form hcheck hc hserver hoptions] at hc'
    have hlisten : c.listen.newAt form.tuning.port = c.listen.withPort form.tuning.port :=
      congrArg ServerConfig.listen (Except.ok.inj hc')
    exact (ListenAddr.newAt_eq_withPort_iff _ _).mp hlisten
  -- the two tables take the form, and the document is read as they have it
  · rintro ⟨hserver, hoptions, hunscoped⟩
    obtain ⟨server, hserver⟩ := ownTable_iff.mp hserver
    obtain ⟨options, hoptions⟩ := ownTable_iff.mp hoptions
    refine ⟨edited sockets doc server options form.tuning,
      writeTuning_eq_ok_iff.mpr ⟨hcheck, server, options, hserver, hoptions, rfl⟩,
      ⟨_, parse_edited form hcheck hc hserver hoptions, ?_, ?_⟩, writeTuning_again form hcheck⟩
    · simp [ServerConfig.tuning, ServerConfig.tuned]
    · rw [(ListenAddr.newAt_eq_withPort_iff _ _).mpr hunscoped]

/-! ## Two files -/

/-- Addresses as the standard library writes them. -/
def writtenSockets : List (String × ListenAddr) :=
  [("0.0.0.0:24810", .v4 0 24810), ("0.0.0.0:24811", .v4 0 24811)]

/-- A number for every address, and back. -/
def ListenAddr.encode : ListenAddr → Nat
  | v4 ip port => 2 * Nat.pair ip.toNat port
  | v6 ip port scope => 2 * Nat.pair ip.toNat (Nat.pair port scope) + 1

def ListenAddr.decode (n : Nat) : ListenAddr :=
  let (ip, rest) := (n / 2).unpair
  if n % 2 = 0 then v4 (BitVec.ofNat 32 ip) rest
  else v6 (BitVec.ofNat 128 ip) rest.unpair.1 rest.unpair.2

/-- An address is read back from its text. -/
theorem ListenAddr.decode_encode (a : ListenAddr) : decode a.encode = a := by
  cases a with
  | v4 ip port => simp [encode, decode]
  | v6 ip port scope =>
    have hhalf : (2 * Nat.pair ip.toNat (Nat.pair port scope) + 1) / 2
        = Nat.pair ip.toNat (Nat.pair port scope) := by omega
    have hodd : (2 * Nat.pair ip.toNat (Nat.pair port scope) + 1) % 2 = 1 := by omega
    simp [encode, decode, hhalf, hodd]

/-- Sockets written as they are where the examples need it, and somehow elsewhere. -/
def someSockets : SocketText where
  print a := match writtenSockets.find? (·.2 = a) with
    | some e => e.1
    | none => String.ofList (List.replicate a.encode 'x')
  parse s := match writtenSockets.find? (·.1 = s) with
    | some e => some e.2
    | none => some (.decode s.length)
  parse_print := by
    intro a _
    have htexts : ∀ e ∈ writtenSockets, writtenSockets.find? (·.1 = e.1) = some e
        ∧ ':' ∈ e.1.toList := by decide
    cases hfind : writtenSockets.find? (·.2 = a) with
    | some e =>
      have ha : e.2 = a := by simpa using List.find?_some hfind
      simp [(htexts e (List.mem_of_find?_eq_some hfind)).1, ha]
    | none =>
      -- what is made up has no colon
      have hnone : writtenSockets.find?
          (·.1 = String.ofList (List.replicate a.encode 'x')) = none := by
        rw [List.find?_eq_none]
        intro e he htext
        have hcolon := (htexts e he).2
        rw [of_decide_eq_true htext, String.toList_ofList] at hcolon
        cases List.eq_of_mem_replicate hcolon
      simp [hnone, ListenAddr.decode_encode]

def oneScreen (options : List (String × Toml)) : Toml.Table :=
  ("screens", .array [.table [("name", .string "pc")]]) :: options

def otherPort : TuningForm where
  tuning := { port := 24811 }
  port_lt := by decide
  switchDelayMs_lt := by decide
  switchDoubleTapMs_lt := by decide
  switchCornerSize_lt := by decide
  jumpZoneSize_lt := by decide

/-- A save of another port on a config of one screen. -/
theorem tuning_saved_other_port : ∃ c,
    ServerConfig.parse someSockets (oneScreen []) = .ok c
      ∧ TuningSaved someSockets (oneScreen []) c otherPort.tuning := by
  have hlisten : (ServerConfig.parse someSockets (oneScreen [])).toOption.map (·.listen)
      = some (.v4 0 24810) := by decide +kernel
  obtain ⟨c, hc, hlisten⟩ := Option.map_eq_some_iff.mp hlisten
  have hc : ServerConfig.parse someSockets (oneScreen []) = .ok c := by
    cases hparse : ServerConfig.parse someSockets (oneScreen []) with
    | error e => rw [hparse] at hc; cases hc
    | ok c' => rw [hparse] at hc; exact congrArg _ (Option.some.inj hc)
  refine ⟨c, hc, (tuning_saved otherPort (by decide) hc).mpr ⟨?_, ?_, ?_⟩⟩
  · rintro v ⟨⟩
  · rintro v ⟨⟩
  · rw [hlisten]
    trivial

/-- A section written in one line is read, and cannot be saved. -/
theorem inline_options_refused : ¬ ∀ (sockets : SocketText) (doc : Toml.Table) (c : ServerConfig)
    (form : TuningForm), form.tuning.check = true → ServerConfig.parse sockets doc = .ok c →
    TuningSaved sockets doc c form.tuning := by
  intro hall
  let doc := oneScreen [("options", .inlineTable [("switch_delay_ms", .integer 250)])]
  have hlisten : (ServerConfig.parse someSockets doc).toOption.isSome = true := by decide +kernel
  cases hparse : ServerConfig.parse someSockets doc with
  | error e => rw [hparse] at hlisten; cases hlisten
  | ok c =>
    obtain ⟨doc', hwrite, -⟩ := hall someSockets doc c otherPort (by decide) hparse
    obtain ⟨-, server, options, -, hoptions, -⟩ := writeTuning_eq_ok_iff.mp hwrite
    cases hoptions

end GeserDesk
