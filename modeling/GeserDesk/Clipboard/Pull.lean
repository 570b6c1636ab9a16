import GeserDesk.Clipboard.FileOwner
import GeserDesk.Clipboard.Stage
import GeserDesk.Lib.FileStore

/-!
# Pulling a manifest's bytes onto this machine's disk

`pull_with_options`, `pull_into` and `top_level` of `geserdesk-clipboard/src/pull.rs`, and the note
of `history.rs`. How a chunk is fetched is the caller's business: `Fetch` is what it gives the pull,
over whatever state the fetching has.

* `pullChunks_of_served`: against a fetch that serves the bytes of one file, the loop ends with
  the file as it is, whatever its size.
* `pullInto_of_served`: against one that serves every file, each entry is put down in turn.
-/

namespace GeserDesk

/-- What comes of waiting for a chunk: the cancel switch wins over the read, and a read may take
too long. -/
inductive Awaited where
  | cancelled
  | timedOut
  | answered (result : FileReadResult)
deriving DecidableEq, Repr

/-- Where a pull gets its chunks: by index, offset and length. -/
structure Fetch (σ : Type) where
  read : σ → Nat → Nat → Nat → Awaited × σ
  isCancelled : σ → Bool

inductive PullError where
  | sanitize (e : SanitizeError)
  | tooLarge (max : Nat)
  | read (e : FileReadError)
  | shortRead
  | timeout
  | cancelled
  | io (path : List String)
deriving DecidableEq, Repr

/-- How far a pull has gotten; folders are not counted. -/
structure Progress where
  seq : Nat
  file : String
  fileIndex : Nat
  fileCount : Nat
  bytesDone : Nat
  bytesTotal : Nat
deriving DecidableEq, Repr

/-- What a pull needs besides what to pull and where to put it; 0 is no limit. -/
structure PullOptions where
  maxBytes : Nat
  seq : Nat
deriving DecidableEq, Repr

/-- The sum is the source's `u64`, which wraps around in a release build. -/
def FileManifest.totalBytes (m : FileManifest) : Nat :=
  ((m.entries.filter fun e => !e.dir).map (·.size)).sum % 2 ^ 64

def FileManifest.fileCount (m : FileManifest) : Nat := (m.entries.filter fun e => !e.dir).length

/-- A pull under way: the disk, the fetching, and what it has counted and reported. The counts of
bytes written do not wrap: no disk takes that many. -/
structure Pulling (σ : Type) where
  fs : FileStore String UInt8
  fetching : σ
  fileIndex : Nat := 0
  bytesDone : Nat := 0
  reported : List Progress := []
  /-- The entry and the length of every chunk written, in order (bookkeeping only). -/
  written : List (Nat × Nat) := []

/-- `entry.path.rsplit('/').next()`. -/
def lastPart (path : String) : String := (pathParts path).getLast?.getD path

/-- The chunks of one file from `offset` on. A chunk that is not empty is progress, so as many
rounds as bytes are missing are enough. -/
def pullChunks {σ : Type} (fetch : Fetch σ) (m : FileManifest) (seq index : Nat)
    (entry : FileEntry) (path : List String) :
    Nat → Nat → Pulling σ → Pulling σ × Option PullError
  | 0, _, p => (p, none)
  | rounds + 1, offset, p =>
    if entry.size ≤ offset then (p, none)
    else
      let (got, fetching) := fetch.read p.fetching index offset
        (min (entry.size - offset) MAX_READ_LEN)
      let p := { p with fetching := fetching }
      match got with
      | .cancelled => (p, some .cancelled)
      | .timedOut => (p, some .timeout)
      | .answered (.err e) => (p, some (.read e))
      | .answered (.data bytes) =>
        if bytes.isEmpty then (p, some .shortRead)
        else
          match p.fs.append path bytes with
          | none => (p, some (.io path))
          | some fs =>
            let done := p.bytesDone + bytes.length
            let report : Progress :=
              ⟨seq, lastPart entry.path, p.fileIndex, m.fileCount, done, m.totalBytes⟩
            pullChunks fetch m seq index entry path rounds (offset + bytes.length)
              { p with fs := fs, bytesDone := done, reported := p.reported ++ [report]
                       written := p.written ++ [(index, bytes.length)] }

/-- Entry by entry: folders are created, files filled. -/
def pullInto {σ : Type} (fetch : Fetch σ) (m : FileManifest) (seq : Nat) :
    Nat → List (FileEntry × List String) → Pulling σ → Pulling σ × Option PullError
  | _, [], p => (p, none)
  | index, (entry, path) :: rest, p =>
    if fetch.isCancelled p.fetching then (p, some .cancelled)
    else if entry.dir then
      match p.fs.createDirAll path with
      | none => (p, some (.io path))
      | some fs => pullInto fetch m seq (index + 1) rest { p with fs := fs }
    else
      match p.fs.create path with
      | none => (p, some (.io path))
      | some fs =>
        match pullChunks fetch m seq index entry path entry.size 0 { p with fs := fs } with
        | (p, some e) => (p, some e)
        | (p, none) => pullInto fetch m seq (index + 1) rest { p with fileIndex := p.fileIndex + 1 }

/-- The resolved paths of entries with no `/`: what a paste should paste. -/
def topLevel (m : FileManifest) (resolved : List (List String)) : List (List String) :=
  ((m.entries.zip resolved).filter fun e => !e.1.path.toList.contains '/').map Prod.snd

/-- Pull every file of a manifest into `dest`, and return the top-level paths. What a failed pull
has written is removed. -/
def pullWithOptions {σ : Type} (toLowercase : String → String) (m : FileManifest)
    (dest : List String) (options : PullOptions) (fetch : Fetch σ)
    (fs : FileStore String UInt8) (fetching : σ) :
    Pulling σ × Except PullError (List (List String)) :=
  let p : Pulling σ := { fs := fs, fetching := fetching }
  if 0 < options.maxBytes ∧ options.maxBytes < m.totalBytes then
    (p, .error (.tooLarge options.maxBytes))
  else
    match sanitizeManifest toLowercase dest [] m.entries with
    | .error e => (p, .error (.sanitize e))
    | .ok resolved =>
      if fetch.isCancelled fetching then (p, .error .cancelled)
      else
        match fs.createDirAll dest with
        | none => (p, .error (.io dest))
        | some fs =>
          match pullInto fetch m options.seq 0 (m.entries.zip resolved) { p with fs := fs } with
          | (p, none) => (p, .ok (topLevel m resolved))
          | (p, some e) => ({ p with fs := p.fs.removeDirAll dest }, .error e)

/-! ## The note left in a pulled folder -/

def NOTE : String := ".geserdesk-transfer"

def oneLine (text : String) : String := text.map fun c => if c = '\n' ∨ c = '\r' then ' ' else c

def topNames (m : FileManifest) : List String :=
  (m.entries.filter fun e => !e.path.toList.contains '/').map (·.path)

def noteText (peer : String) (time : Nat) (m : FileManifest) : String :=
  (topNames m).foldl (fun text name => text ++ "name " ++ oneLine name ++ "\n")
    ("peer " ++ oneLine peer ++ "\ntime " ++ toString time ++ "\n")

/-- Leave a note in `dest`. Failing to write it costs only the note. -/
def writeNote (fs : FileStore String UInt8) (dest : List String) (peer : String) (time : Nat)
    (m : FileManifest) : FileStore String UInt8 :=
  (fs.write (dest ++ [NOTE]) (noteText peer time m).toUTF8.data.toList).getD fs

/-! ## Against a fetch that serves the files

A pull whose requests are all answered with the file's bytes writes each file whole. -/

/-- Every read of this entry is answered with the bytes asked for, as far as the file has them. -/
def Fetch.Serves {σ : Type} (fetch : Fetch σ) (index : Nat) (bytes : Bytes) : Prop :=
  ∀ s offset want, offset ≤ bytes.length → want ≤ MAX_READ_LEN → want ≤ bytes.length - offset →
    (fetch.read s index offset want).1 = .answered (.data ((bytes.drop offset).take want))

variable {σ : Type} {fetch : Fetch σ} {m : FileManifest} {seq : Nat}

/-- The loop over the chunks of a file leaves the whole file. -/
theorem pullChunks_of_served {index : Nat} {entry : FileEntry} {path : List String}
    {bytes : Bytes} (hserves : fetch.Serves index bytes) (hsize : entry.size = bytes.length)
    {fs : FileStore String UInt8} {rounds offset : Nat} {p : Pulling σ}
    (hoff : offset ≤ bytes.length) (hrounds : bytes.length - offset ≤ rounds)
    (hp : p.fs = fs.put path (.file (bytes.take offset))) :
    ∃ p', pullChunks fetch m seq index entry path rounds offset p = (p', none)
      ∧ p'.fs = fs.put path (.file bytes) := by
  induction rounds generalizing offset p with
  | zero =>
    have hall : bytes.take offset = bytes := List.take_of_length_le (by omega)
    exact ⟨p, rfl, by rw [hp, hall]⟩
  | succ rounds ih =>
    unfold pullChunks
    by_cases hend : entry.size ≤ offset
    · have hall : bytes.take offset = bytes := List.take_of_length_le (by omega)
      exact ⟨p, if_pos hend, by rw [hp, hall]⟩
    · rw [if_neg hend]
      have hwant : min (entry.size - offset) MAX_READ_LEN ≤ bytes.length - offset := by
        rw [hsize]
        exact Nat.min_le_left _ _
      have hgot := hserves p.fetching offset _ hoff (Nat.min_le_right _ _) hwant
      have hpos : 0 < min (entry.size - offset) MAX_READ_LEN := by
        have : 0 < MAX_READ_LEN := by decide
        omega
      generalize min (entry.size - offset) MAX_READ_LEN = want at hgot hwant hpos ⊢
      -- what was read is the next `want` bytes
      have hlen : ((bytes.drop offset).take want).length = want := by
        rw [List.length_take, List.length_drop]
        omega
      have hmore : ((bytes.drop offset).take want).isEmpty = false := by
        rw [List.isEmpty_eq_false_iff, ← List.length_pos_iff, hlen]
        exact hpos
      have htake : bytes.take offset ++ (bytes.drop offset).take want = bytes.take (offset + want) :=
        List.take_add.symm
      simp only [hgot, hmore, Bool.false_eq_true, if_false, hp, FileStore.append_put, htake, hlen]
      exact ih (by omega) (by omega) rfl

/-- One thing to put down, with the entry that announces it and where it goes. -/
structure Placed where
  entry : FileEntry
  path : List String
  node : StoreNode UInt8

/-- The entry says what the node is, and its bytes are served. -/
def Placed.ServedBy (d : Placed) (fetch : Fetch σ) (index : Nat) : Prop :=
  match d.node with
  | .folder => d.entry.dir = true
  | .file bytes => d.entry.dir = false ∧ d.entry.size = bytes.length ∧ fetch.Serves index bytes

/-- Each of these can be put down after those before it: the path is free and everything above
it is a folder. -/
def Placeable (fs : FileStore String UInt8) : List Placed → Prop
  | [] => True
  | d :: rest => (fs d.path = none ∧ d.path ≠ [] ∧ ∀ q, q <+: d.path → q ≠ d.path →
      fs q = some .folder) ∧ Placeable (fs.put d.path d.node) rest

/-- From an owner that answers as it announced, all entries are put in their places. -/
theorem pullInto_of_served (hnever : ∀ s, fetch.isCancelled s = false) {ds : List Placed}
    {index : Nat} {p : Pulling σ} (hplace : Placeable p.fs ds)
    (hserved : ∀ k (d : Placed), ds[k]? = some d → d.ServedBy fetch (index + k)) :
    ∃ p', pullInto fetch m seq index (ds.map fun d => (d.entry, d.path)) p = (p', none)
      ∧ p'.fs = p.fs.stage (ds.map fun d => (d.path, d.node)) := by
  induction ds generalizing index p with
  | nil => exact ⟨p, rfl, rfl⟩
  | cons d ds ih =>
    obtain ⟨⟨hnew, hne, habove⟩, hrest⟩ := hplace
    have hd : d.ServedBy fetch index := hserved 0 d rfl
    have hds : ∀ k (d : Placed), ds[k]? = some d → d.ServedBy fetch (index + 1 + k) := by
      intro k d' hk
      have h := hserved (k + 1) d' hk
      rwa [show index + (k + 1) = index + 1 + k by omega] at h
    -- what is left to do once the first entry is down
    have hgo : ∀ p₁ : Pulling σ, p₁.fs = p.fs.put d.path d.node → ∃ p',
        pullInto fetch m seq (index + 1) (ds.map fun d => (d.entry, d.path)) p₁ = (p', none)
          ∧ p'.fs = p.fs.stage ((d :: ds).map fun d => (d.path, d.node)) := by
      intro p₁ hp₁
      obtain ⟨p', hrun, hfs⟩ := ih (p := p₁) (by rw [hp₁]; exact hrest) hds
      refine ⟨p', hrun, ?_⟩
      rw [hfs, hp₁]
      rfl
    unfold Placed.ServedBy at hd
    rw [List.map_cons]
    unfold pullInto
    rw [hnever, if_neg Bool.false_ne_true]
    cases hnode : d.node with
    | folder =>
      rw [hnode] at hd
      have hdir : p.fs.createDirAll d.path = some (p.fs.put d.path .folder) :=
        FileStore.createDirAll_new habove hnew
      rw [if_pos hd, hdir]
      exact hgo _ (by rw [hnode])
    | file bytes =>
      rw [hnode] at hd
      obtain ⟨hdir, hsize, hserves⟩ := hd
      have hparent : d.path.dropLast ≠ d.path := fun heq => hne <| by
        have hlen := congrArg List.length heq
        rw [List.length_dropLast] at hlen
        exact List.length_eq_zero_iff.mp (by omega)
      have hcreate : p.fs.create d.path = some (p.fs.put d.path (.file [])) :=
        FileStore.create_new (habove _ (List.dropLast_prefix _) hparent) (by rw [hnew]; exact nofun)
      rw [if_neg (by rw [hdir]; exact Bool.false_ne_true), hcreate]
      have hloop : ∃ p₁, pullChunks fetch m seq index d.entry d.path d.entry.size 0
          { p with fs := p.fs.put d.path (.file []) } = (p₁, none)
          ∧ p₁.fs = p.fs.put d.path (.file bytes) :=
        pullChunks_of_served hserves hsize (Nat.zero_le _) (by omega) rfl
      obtain ⟨p₁, hrun, hfs⟩ := hloop
      simp only [hrun]
      exact hgo _ (by rw [hnode]; exact hfs)

end GeserDesk
