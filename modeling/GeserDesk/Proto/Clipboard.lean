import Mathlib
import GeserDesk.Lib.Postcard

/-!
# Clipboard contents, file manifests and the chunk envelope

`geserdesk-proto/src/clipboard.rs`. A copy travels as one encoded byte string, cut into a
`Start Data* End` stream and put together again by `ChunkAssembler`.

The wire encoding itself is a third-party library. It appears here as a `Codec`: a pair of
encoders and decoders of which only what the source relies on is known, that decoding what
was encoded gives it back.
-/

namespace GeserDesk

abbrev Bytes := List UInt8

/-- One file or folder of a manifest; a folder has `size = 0`. -/
structure FileEntry where
  path : String
  size : Nat
  dir : Bool
deriving DecidableEq, Repr

/-- The names and sizes of what was copied; the bytes are pulled by index into this list. -/
structure FileManifest where
  entries : List FileEntry
deriving DecidableEq, Repr

/-- One format of a clipboard's contents. -/
structure ClipboardItem where
  mime : String
  data : Bytes
deriving DecidableEq, Repr

/-- What a clipboard holds, in every format shared. -/
structure ClipboardContent where
  items : List ClipboardItem
deriving DecidableEq, Repr

def MIME_FILES : String := "application/x-geserdesk-files"

/-- The wire encoding of contents and manifests. -/
structure Codec where
  encode : ClipboardContent → Bytes
  decode : Bytes → Option ClipboardContent
  encodeManifest : FileManifest → Bytes
  decodeManifest : Bytes → Option FileManifest
  decode_encode : ∀ c, decode (encode c) = some c
  decodeManifest_encode : ∀ m, decodeManifest (encodeManifest m) = some m

/-- The encoding of the source: postcard. -/
def Codec.postcard : Codec :=
  let items : Postcard.Wire (List ClipboardItem) := Postcard.Wire.list <|
    (Postcard.Wire.text.pair .bytes).via (fun i => (i.mime, i.data)) (fun i => some ⟨i.1, i.2⟩)
      fun _ => rfl
  let entries : Postcard.Wire (List FileEntry) := Postcard.Wire.list <|
    (Postcard.Wire.text.pair (Postcard.Wire.nat.pair .flag)).via (fun e => (e.path, e.size, e.dir))
      (fun e => some ⟨e.1, e.2.1, e.2.2⟩) fun _ => rfl
  { encode := fun c => items.write c.items
    decode := fun bytes => (items.decode bytes).map (⟨·⟩)
    encodeManifest := fun m => entries.write m.entries
    decodeManifest := fun bytes => (entries.decode bytes).map (⟨·⟩)
    decode_encode := fun c => by rw [items.decode_encode]; rfl
    decodeManifest_encode := fun m => by rw [entries.decode_encode]; rfl }

/-- The bytes of the formats themselves, which is what a size limit counts. -/
def ClipboardContent.dataLen (c : ClipboardContent) : Nat :=
  (c.items.map fun i => i.data.length).sum

/-- The file manifest, if this copy was of files rather than data. -/
def ClipboardContent.files (cd : Codec) (c : ClipboardContent) : Option FileManifest :=
  match c.items.find? fun i => i.mime == MIME_FILES with
  | some item => cd.decodeManifest item.data
  | none => none

/-- The contents that announce a manifest. An empty manifest announces nothing. -/
def ClipboardContent.withFiles (cd : Codec) (m : FileManifest) : ClipboardContent :=
  if m.entries.isEmpty then ⟨[]⟩ else ⟨[⟨MIME_FILES, cd.encodeManifest m⟩]⟩

/-- A manifest is read back from the content that carries it. -/
theorem ClipboardContent.files_withFiles (cd : Codec) {m : FileManifest}
    (h : m.entries ≠ []) : (ClipboardContent.withFiles cd m).files cd = some m := by
  have hne : m.entries.isEmpty = false := by simpa using h
  rw [withFiles, hne, files]
  simpa [MIME_FILES] using cd.decodeManifest_encode m

/-- Copying a manifest of nothing looks like a copy of empty data. -/
theorem ClipboardContent.files_withFiles_empty (cd : Codec) :
    (ClipboardContent.withFiles cd ⟨[]⟩).files cd = none := rfl

/-- Why a file-read request was refused. -/
inductive FileReadError where
  | notFound | changed | denied | superseded
deriving DecidableEq, Repr

/-- The answer to a file-read request. -/
inductive FileReadResult where
  | data (bytes : Bytes)
  | err (e : FileReadError)
deriving DecidableEq, Repr

/-- Which clipboard a message refers to. -/
inductive ClipboardId where
  | clipboard | primary
deriving DecidableEq, Repr

/-- One frame of a streamed transfer. -/
inductive Chunk where
  | start (total : Nat)
  | data (bytes : Bytes)
  | «end»
deriving DecidableEq, Repr

def CHUNK_SIZE : Nat := 32 * 1024

/-- `bytes.chunks(CHUNK_SIZE)`: runs of `CHUNK_SIZE` bytes, the last one shorter. -/
def chunksOf (n : Nat) : Nat → Bytes → List Bytes
  | 0, _ => []
  | fuel + 1, bytes =>
    if bytes.isEmpty then [] else bytes.take n :: chunksOf n fuel (bytes.drop n)

/-- Split `bytes` into a `Start`, a run of `Data` chunks, and an `End`. The run has at most
as many chunks as there are bytes. -/
def Chunk.stream (bytes : Bytes) : List Chunk :=
  .start bytes.length
    :: ((chunksOf CHUNK_SIZE bytes.length bytes).map .data ++ [.end])

/-- The chunk stream violated the `Start Data* End` grammar. -/
inductive ChunkError where
  | notStarted
  | doubleStart
  | afterEnd
  | lengthMismatch (expected actual : Nat)
  | tooLarge (limit : Nat)
deriving DecidableEq, Repr

/-- Puts a chunk stream together again. `limit` refuses a longer stream (0 = no limit). -/
structure ChunkAssembler where
  started : Bool := false
  finished : Bool := false
  expected : Nat := 0
  limit : Nat := 0
  buf : Bytes := []
deriving DecidableEq, Repr

def ChunkAssembler.withLimit (limit : Nat) : ChunkAssembler := { limit := limit }

/-- Feed one chunk: the whole buffer once `End` completes the stream. -/
def ChunkAssembler.push (a : ChunkAssembler) (chunk : Chunk) :
    ChunkAssembler × Except ChunkError (Option Bytes) :=
  if a.finished then (a, .error .afterEnd)
  else match chunk with
    | .start total =>
      if a.started then (a, .error .doubleStart)
      else if 0 < a.limit ∧ a.limit < total then (a, .error (.tooLarge a.limit))
      else ({ a with started := true, expected := total }, .ok none)
    | .data d =>
      if !a.started then (a, .error .notStarted)
      else if 0 < a.limit ∧ a.limit < a.buf.length + d.length then
        (a, .error (.tooLarge a.limit))
      else ({ a with buf := a.buf ++ d }, .ok none)
    | .end =>
      if !a.started then (a, .error .notStarted)
      else if a.expected ≠ 0 ∧ a.expected ≠ a.buf.length then
        (a, .error (.lengthMismatch a.expected a.buf.length))
      else ({ a with finished := true, buf := [] }, .ok (some a.buf))

end GeserDesk
