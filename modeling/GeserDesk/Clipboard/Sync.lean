import GeserDesk.Clipboard.Content

/-!
# Change detection

`geserdesk-clipboard/src/sync.rs`: what a local application puts on the clipboard is told from what
this program put there, by the OS's change count and by a hash of what was last seen or written.
Data and files are watched apart, alike; each call is cut where it asks the OS something.

The hash, and what the OS reports of what it was given, are a `Platform`'s.
-/

namespace GeserDesk

/-- What is watched apart. -/
inductive CopyKind where
  | data
  | files
deriving DecidableEq, Repr

/-- What a clipboard reports that it holds. -/
inductive Held where
  | data (content : ClipboardContent)
  | files (paths : List String)
deriving DecidableEq, Repr

namespace Held

def kind : Held → CopyKind
  | .data _ => .data
  | .files _ => .files

/-- What a poll makes of something new: of data what is within the limit, and of files the paths. -/
def worth (cd : Codec) (maxBytes : Nat) : Held → Option Held
  | .data content =>
    if content.isEmpty cd then none else (content.fit cd maxBytes).map .data
  | .files [] => none
  | .files paths => some (.files paths)

end Held

/-- What differs from one machine to another. -/
structure Platform where
  /-- `fingerprint` and `fingerprint_paths`. -/
  fingerprint : Held → Nat
  /-- What the clipboard reports when it has been given something; HTML may come back changed. -/
  handsBack : Held → Option Held
  kind_handsBack : ∀ given now, handsBack given = some now → now.kind = given.kind

/-- The OS clipboard, with a change count that rises on every write. -/
structure OsClipboard where
  count : Nat := 0
  held : Option Held := none
deriving DecidableEq, Repr

namespace OsClipboard

def write (os : OsClipboard) (held : Option Held) : OsClipboard := ⟨os.count + 1, held⟩

/-- `get` and `file_list`. While the clipboard holds files there is no data to get; and a list of no
files is nothing to any caller. -/
def read (os : OsClipboard) (k : CopyKind) : Option Held :=
  match k, os.held with
  | .data, some (.data content) => some (.data content)
  | .files, some (.files (path :: paths)) => some (.files (path :: paths))
  | _, _ => none

/-- Contents that are worth returning are read as they are. -/
theorem read_of_worth {os : OsClipboard} {cd : Codec} {maxBytes : Nat} {h w : Held}
    (hheld : os.held = some h) (hw : h.worth cd maxBytes = some w) : os.read h.kind = some h := by
  cases h with
  | data content => simp [read, Held.kind, hheld]
  | files paths =>
    cases paths with
    | nil => cases hw
    | cons path paths => simp [read, Held.kind, hheld]

/-- What is read is what is held, of its kind. -/
theorem read_eq_some {os : OsClipboard} {k : CopyKind} {h : Held} (hread : os.read k = some h) :
    os.held = some h ∧ h.kind = k := by
  unfold read at hread
  split at hread <;> cases hread
  · next hheld => exact ⟨hheld, rfl⟩
  · next hheld => exact ⟨hheld, rfl⟩

end OsClipboard

/-- What is remembered of one kind. -/
structure Watch where
  /-- The hash of what the clipboard held when it was last looked at or written. -/
  seen : Option Nat := none
  /-- The change count at the last read; the same count means nothing to read. -/
  count : Option Nat := none
deriving DecidableEq, Repr

/-- `Inner`: `seen` and `count`, `files_seen` and `files_count`. -/
structure ClipboardSync where
  data : Watch := {}
  files : Watch := {}
deriving DecidableEq, Repr

namespace ClipboardSync

def watch (s : ClipboardSync) : CopyKind → Watch
  | .data => s.data
  | .files => s.files

def setWatch (s : ClipboardSync) (k : CopyKind) (w : Watch) : ClipboardSync :=
  match k with
  | .data => { s with data := w }
  | .files => { s with files := w }

/-- A watch that is set is found, and the other kind's is the one of before. -/
@[simp] theorem watch_setWatch (s : ClipboardSync) (k k' : CopyKind) (w : Watch) :
    (s.setWatch k w).watch k' = if k' = k then w else s.watch k' := by
  cases k <;> cases k' <;> rfl

end ClipboardSync

namespace Watch

/-- The count read by `change_count`, remembered: the first thing `prime` does and the last thing
`apply` does. -/
def recount (w : Watch) (os : OsClipboard) : Watch := { w with count := some os.count }

/-- `prime`, once it has read the clipboard: what is there is not news. -/
def primed (p : Platform) (w : Watch) (got : Except Unit (Option Held)) : Watch :=
  { w with seen := match got with
    | .ok (some h) => some (p.fingerprint h)
    | _ => none }

/-- `poll`, when it has the change count: the clipboard is read if that changed. -/
def poll (w : Watch) (os : OsClipboard) : Option Watch :=
  if w.count = some os.count then none else some (w.recount os)

/-- `poll`, once it has read the clipboard: what was known is kept if there is nothing of the kind,
and what is new is remembered whether or not it is worth sharing. -/
def polled (p : Platform) (cd : Codec) (maxBytes : Nat) (w : Watch) :
    Except Unit (Option Held) → Watch × Option Held
  | .ok (some h) =>
    if w.seen = some (p.fingerprint h) then (w, none)
    else ({ w with seen := some (p.fingerprint h) }, h.worth cd maxBytes)
  | _ => (w, none)

/-- `apply`, once it has read back what it wrote: what the clipboard reports is remembered, and only
if it reports nothing what was written. -/
def applied (p : Platform) (given : Held) (w : Watch) (got : Except Unit (Option Held)) : Watch :=
  { w with seen := some (match got with
    | .ok (some now) => p.fingerprint now
    | _ => p.fingerprint given) }

end Watch

end GeserDesk
