import GeserDesk.Lib.Transition
import GeserDesk.Server.ConfigFile

/-!
# Runs of the administration

`DeskState::approve`, `revoke`, `set_disabled` and `apply_layout`, called by any number of
controllers, and `config::write_tuning` on the same file. Each call is cut into its lock sections,
the read of the config file and its replacement, either of which may fail.

What each call that has saved its change was asked for is on record (`accepted`), in the order in
which they saved it.
-/

namespace GeserDesk

/-- Where a call stands. -/
inductive AdminPc where
  /-- `approve`: the certificate trusted so far is to be read; -/
  | prior (name : String) (fp : Fingerprint) (listed : Bool)
  /-- then the pending one is to be trusted. -/
  | trusting (name : String) (fp : Fingerprint) (listed : Bool) (previous : Option Fingerprint)
  | toRead (c : Change)
  | toReplace (c : Change) (new : ConfigFile)
  /-- The file was not replaced; the trust is to be put back. -/
  | undo (c : Change)
  /-- It was, and what is in memory is to follow. -/
  | saved (c : Change)
  /-- The positions have followed; -/
  | sizing (positions : Dict String Point) (sizes : Dict String Size)
  /-- both have, and the router is to be told. -/
  | telling (positions : Dict String Point) (sizes : Dict String Size)
  /-- A new screen is on the desk; the hub's list is next. -/
  | adding (name : String)
  | returned (ok : Bool)

/-- What a call has returned. -/
def AdminPc.ok? : AdminPc → Option Bool
  | .returned ok => some ok
  | _ => none

/-- The call has replaced the file. -/
def AdminPc.hasSaved : AdminPc → Bool
  | .saved _ | .sizing _ _ | .telling _ _ | .adding _ => true
  | .returned ok => ok
  | _ => false

structure ConfigRun where
  file : ConfigFile
  desk : DeskState
  hub : Hub ServerMsg := {}
  calls : Dict Nat AdminPc := ∅
  nextCall : Nat := 0
  /-- What the config was at the start, with the saved changes (bookkeeping only). -/
  accepted : Settings

inductive AdminLabel where
  | approve (name : String) (fp : Fingerprint)
  | revoke (name : String)
  | setDisabled (name : String) (disabled : Bool)
  /-- `hub` is the registry as this call finds it. -/
  | applyLayout (requested : Dict String Point) (resized : Dict String (Option Size))
      (hub : Hub ServerMsg)
  | writeTuning (t : Tuning)
  /-- A call goes on; `ok` tells whether the file could be read or replaced. -/
  | go (call : Nat) (ok : Bool)
  /-- Clients ask to be trusted, or no longer. -/
  | waiting (pending : List Trust.Pending)
  /-- Clients come and go, and queues fill and empty. -/
  | traffic (hub : Hub ServerMsg)

namespace ConfigRun

def addCall (s : ConfigRun) (pc : AdminPc) : ConfigRun :=
  { s with calls := s.calls.put s.nextCall pc, nextCall := s.nextCall + 1 }

def setTrust (s : ConfigRun) (t : Trust) : ConfigRun :=
  { s with desk := { s.desk with trust := some t } }

/-- A call whose file could not be read, edited or replaced. -/
def failed : Change → AdminPc
  | .trust name fp listed previous => .undo (.trust name fp listed previous)
  | .untrust name old => .undo (.untrust name old)
  | _ => .returned false

/-- A call whose file was replaced. -/
def done : Change → AdminPc
  -- the screen is on the desk already
  | .trust _ _ true _ => .returned true
  | .tuning _ => .returned true
  | c => .saved c

/-- The next section of a call. -/
def advance (s : ConfigRun) (ok : Bool) : AdminPc → Option (ConfigRun × AdminPc)
  | .prior name fp listed =>
    some (s, .trusting name fp listed (s.desk.trust.bind (·.trusted.get? name)))
  | .trusting name fp listed previous =>
    match s.desk.trust with
    | none => none
    | some t =>
      match t.approve name fp with
      | (t, true) => some (s.setTrust t, .toRead (.trust name fp listed previous))
      | (_, false) => some (s, .returned false)
  | .toRead c =>
    match ok, c.edit s.file with
    | true, some new => some (s, .toReplace c new)
    | _, _ => some (s, failed c)
  -- replaced whole, by the edit of what was read: saves in between are lost
  | .toReplace c new =>
    if ok then some ({ s with file := new, accepted := c.apply s.accepted }, done c)
    else some (s, failed c)
  | .undo (.trust name _ _ previous) =>
    (s.desk.trust).map fun t => (s.setTrust (t.restore name previous), .returned false)
  | .undo (.untrust name old) =>
    (s.desk.trust).map fun t => (s.setTrust (t.restore name (some old)), .returned false)
  | .undo _ => none
  | .saved (.trust name _ _ _) =>
    some ({ s with desk := { s.desk with layout := (s.desk.layout.addScreen name).1 } }, .adding name)
  -- a screen that is not trusted any more is disconnected
  | .saved (.untrust name _) =>
    some ({ s with hub := (s.hub.disconnect name .reconfigured).1 }, .returned true)
  | .saved (.disable name disabled) =>
    some ({ s with hub := s.hub.setDisabled name disabled }, .returned true)
  | .saved (.layout positions sizes) =>
    some ({ s with desk := { s.desk with positions := positions } }, .sizing positions sizes)
  | .saved (.tuning _) => none
  | .sizing positions sizes =>
    some ({ s with desk := { s.desk with sizes := sizes } }, .telling positions sizes)
  | .telling positions sizes =>
    some ({ s with hub := (s.hub.emit (.sizes sizes)).emit (.positions positions) }, .returned true)
  | .adding name => some ({ s with hub := (s.hub.addScreen name).1 }, .returned true)
  | .returned _ => none

/-- One section. A call that fails its checks returns at once. -/
def step (s : ConfigRun) : AdminLabel → Option ConfigRun
  | .approve name fp =>
    let listed := s.desk.layout.hasScreen name
    if s.desk.trust.isNone || (!listed && !validScreenName name) then some s
    else some (s.addCall (.prior name fp listed))
  | .revoke name =>
    match s.desk.trust with
    | none => some s
    | some t =>
      match t.revoke name with
      | (t, some old) => some ((s.setTrust t).addCall (.toRead (.untrust name old)))
      | (t, none) => some (s.setTrust t)
  | .setDisabled name disabled =>
    if name = s.desk.local_ || !s.desk.layout.hasScreen name then some s
    else some (s.addCall (.toRead (.disable name disabled)))
  | .applyLayout requested resized hub =>
    match s.desk.validate hub requested resized with
    -- checking a layout looks at the screens, which fills in what is known of them
    | .error _ => some { s with desk := (s.desk.screens hub).2 }
    | .ok (next, sizes) =>
      some ({ s with desk := (s.desk.screens hub).2 }.addCall (.toRead (.layout next sizes)))
  | .writeTuning t => if t.check then some (s.addCall (.toRead (.tuning t))) else some s
  | .go call ok =>
    match s.calls.get? call with
    | none => none
    | some pc =>
      match s.advance ok pc with
      | some (s, pc) => some { s with calls := s.calls.put call pc }
      | none => none
  | .waiting pending =>
    match s.desk.trust with
    | some t => some (s.setTrust { t with pending := pending })
    | none => none
  | .traffic hub => if hub.disabled = s.hub.disabled then some { s with hub := hub } else none

/-- What the running server has in memory of the config. -/
def trusted (s : ConfigRun) (n : String) : Option Fingerprint :=
  s.desk.trust.bind (·.trusted.get? n)

/-- Memory and file agree. -/
structure Agrees (s : ConfigRun) (c : Config) : Prop where
  trusted : ∀ n, c.trusted.get? n = s.trusted n
  disabled : ∀ n, n ∈ c.disabled ↔ n ∈ s.hub.disabled
  positions : ∀ n, c.positions.get? n = s.desk.positions.get? n
  sizes : ∀ n, c.sizes.get? n = s.desk.sizes.get? n

/-- All calls have returned. -/
def Settled (s : ConfigRun) : Prop := s.calls.All fun pc => pc.ok?.isSome

instance (s : ConfigRun) : Decidable s.Settled := by unfold Settled; infer_instance

end ConfigRun

/-- The administration, as a transition system: it starts from a file that parses, and agrees with
it. -/
def configRuns : Lts ConfigRun AdminLabel where
  init s := s.file.Valid ∧ (∀ n, s.desk.layout.hasScreen n = true ↔ n ∈ s.file.names)
    ∧ (∃ c, s.file.parse = .ok c ∧ s.Agrees c) ∧ s.accepted = s.file.settings ∧ s.calls = ∅
  step := ConfigRun.step

/-! ## Sections -/

/-- What two calls must not be about at one time. -/
inductive Section where
  /-- The file, from its being read to its being replaced. -/
  | file
  /-- A screen's certificate, from the look at the one so far to its being saved or put back. -/
  | trust (name : String)
  /-- Whether a screen is off, from its being saved to its being so in memory. -/
  | disabled (name : String)
  /-- The layout, from its being checked to its being in memory. -/
  | layout
deriving DecidableEq

def Change.section? : Change → Option Section
  | .trust name _ _ _ => some (.trust name)
  | .untrust name _ => some (.trust name)
  | .layout _ _ => some .layout
  | _ => none

/-- The sections a call is in. -/
def AdminPc.sections : AdminPc → List Section
  | .trusting name _ _ _ => [.trust name]
  | .toRead c => c.section?.toList
  | .toReplace c _ => .file :: c.section?.toList
  | .undo c => c.section?.toList
  | .saved (.disable name _) => [.disabled name]
  | .saved (.layout _ _) => [.layout]
  | .sizing _ _ => [.layout]
  | _ => []

/-- The sections a call enters when it goes on. -/
def AdminPc.enters (file : ConfigFile) (ok : Bool) : AdminPc → List Section
  | .prior name _ _ => [.trust name]
  | .toRead c => if ok ∧ (c.edit file).isSome then [.file] else []
  | .toReplace (.disable name _) _ => if ok then [.disabled name] else []
  | _ => []

namespace ConfigRun

/-- The sections a step enters. -/
def enters (s : ConfigRun) : AdminLabel → List Section
  | .revoke name => if (s.trusted name).isSome then [.trust name] else []
  | .applyLayout requested resized hub =>
    match s.desk.validate hub requested resized with
    | .ok _ => [.layout]
    | .error _ => []
  | .go call ok =>
    match s.calls.get? call with
    | some pc => pc.enters s.file ok
    | none => []
  | _ => []

/-- No step enters a section that another call is in. -/
def Apart (s : ConfigRun) (l : AdminLabel) : Prop :=
  ∀ r ∈ s.enters l, s.calls.All fun pc => r ∉ pc.sections

instance (s : ConfigRun) (l : AdminLabel) : Decidable (s.Apart l) := by
  unfold Apart; infer_instance

end ConfigRun

end GeserDesk
