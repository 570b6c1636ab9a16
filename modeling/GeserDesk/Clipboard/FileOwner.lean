import GeserDesk.Proto.Clipboard

/-!
# Serving the files a machine announced

`FileOwner` of `geserdesk-clipboard/src/files.rs`. What the file system answers is an argument
of every read: it changes under a running server.
-/

namespace GeserDesk

/-- The most a single read returns, whatever `len` asked for. -/
def MAX_READ_LEN : Nat := 1024 * 1024

/-- What the file system says of a path without following a link. -/
structure FileMeta where
  isSymlink : Bool
  len : Nat
deriving DecidableEq, Repr

/-- The file system at the moment of a read. -/
structure Disk where
  symlinkMetadata : String → Option FileMeta
  /-- The bytes behind the path, opened without following a link. -/
  openNoFollow : String → Option Bytes

/-- The announcement being served: `abs[i]` is the path of entry `i`. -/
structure Serving where
  seq : Nat
  manifest : FileManifest
  abs : List String
deriving DecidableEq, Repr

/-- Serves reads of the files this machine most recently announced; one announcement at a
time. -/
structure FileOwner where
  current : Option Serving := none
deriving DecidableEq, Repr

/-- One read of one file of an announcement. -/
structure ReadArgs where
  seq : Nat
  index : Nat
  offset : Nat
  len : Nat
deriving DecidableEq, Repr

/-- A file that is not as it was announced reads as `changed`. -/
def readAt (disk : Disk) (path : String) (entry : FileEntry) (offset len : Nat) :
    FileReadResult :=
  match disk.symlinkMetadata path with
  | none => .err .changed
  | some info =>
    if info.isSymlink ∨ info.len ≠ entry.size ∨ entry.size < offset then .err .changed
    else
      match disk.openNoFollow path with
      | none => .err .changed
      | some bytes =>
        let want := min (min len MAX_READ_LEN) (entry.size - offset)
        let got := (bytes.drop offset).take want
        if got.length = want then .data got else .err .changed

namespace FileOwner

def set (_ : FileOwner) (seq : Nat) (manifest : FileManifest) (abs : List String) : FileOwner :=
  { current := some ⟨seq, manifest, abs⟩ }

/-- Nothing more to serve. -/
def clear (_ : FileOwner) : FileOwner := { current := none }

def read (o : FileOwner) (disk : Disk) (r : ReadArgs) : FileReadResult :=
  match o.current with
  | none => .err .notFound
  | some current =>
    if current.seq ≠ r.seq then .err .superseded
    else
      match current.manifest.entries[r.index]? with
      | none => .err .notFound
      | some entry =>
        if entry.dir then .err .denied
        else
          match current.abs[r.index]? with
          | none => .err .notFound
          | some path => readAt disk path entry r.offset r.len

/-- Bytes are only ever read for the transfer being served. -/
theorem seq_of_read_data {o : FileOwner} {disk : Disk} {r : ReadArgs} {bytes : Bytes}
    (h : o.read disk r = .data bytes) : o.current.map (·.seq) = some r.seq := by
  unfold read at h
  cases hc : o.current with
  | none => rw [hc] at h; cases h
  | some current =>
    rw [hc] at h
    dsimp only at h
    split at h
    · cases h
    · next hseq => exact congrArg some (not_not.mp hseq)

end FileOwner

end GeserDesk
