import GeserDesk.Proto.Message

/-!
# Receiving a clipboard push

`Inbound` of `geserdesk-clipboard/src/inbound.rs` and the limits of its `lib.rs`: a grab announces
a transfer, chunks fill it, the last one completes it. The largest `u64` is out of reach of the
limits, so the sum with the slack is exact.
-/

namespace GeserDesk

/-- `HARD_MAX_BYTES`. -/
def hardMaxBytes : Nat := 16 * 1024 * 1024

/-- The limit that applies for a configured `clipboard_max_bytes`. -/
def effectiveMax (configured : Nat) : Nat :=
  if configured = 0 then hardMaxBytes else min configured hardMaxBytes

/-- What encoding adds to the formats' own bytes. -/
def encodingSlack : Nat := 4096

/-- Why what a peer sent was dropped. -/
inductive InboundError where
  | chunks (e : ChunkError)
  | malformed
deriving DecidableEq, Repr

/-- A transfer under way: its number, the most data it may hold, and what has come of it. -/
structure Transfer where
  seq : Nat
  maxBytes : Nat
  asm : ChunkAssembler
deriving DecidableEq, Repr

/-- The receiving side of a clipboard push. -/
structure Inbound where
  current : Option Transfer := none
deriving DecidableEq, Repr

namespace Inbound

/-- A peer is about to send clipboard `id`, as transfer `seq`, of at most `maxBytes` of data. -/
def grab (_ : Inbound) (id : ClipboardId) (seq maxBytes : Nat) : Inbound :=
  match id with
  | .clipboard => ⟨some ⟨seq, maxBytes, .withLimit (maxBytes + encodingSlack)⟩⟩
  | .primary => ⟨none⟩

/-- One chunk: the contents, when it completes the transfer. -/
def data (cd : Codec) (i : Inbound) (id : ClipboardId) (seq : Nat) (chunk : Chunk) :
    Inbound × Except InboundError (Option ClipboardContent) :=
  match i.current with
  | none => (i, .ok none)
  | some t =>
    if id ≠ .clipboard ∨ seq ≠ t.seq then (i, .ok none)
    else match t.asm.push chunk with
      | (asm, .ok none) => (⟨some { t with asm := asm }⟩, .ok none)
      | (_, .ok (some bytes)) =>
        match cd.decode bytes with
        | none => (⟨none⟩, .error .malformed)
        | some content =>
          if t.maxBytes < content.dataLen then (⟨none⟩, .error (.chunks (.tooLarge t.maxBytes)))
          else (⟨none⟩, .ok (some content))
      | (_, .error e) => (⟨none⟩, .error (.chunks e))

end Inbound

end GeserDesk
