import GeserDesk.Clipboard.Inbound
import GeserDesk.Lib.Feed

/-!
# A push, from one end to the other

A push is a grab and a run of chunks, the same messages in either direction. What is received of a
queue of them is what `Inbound` makes of it, message by message.

* **`feed_pushes`**: read whole, a push comes out as the contents it was made of if these fit
  (`Fits`), and as nothing otherwise; either way the next one starts afresh.
-/

namespace GeserDesk

/-- The messages of a push. -/
inductive Push where
  | grab (id : ClipboardId) (seq : Nat)
  | data (id : ClipboardId) (seq : Nat) (chunk : Chunk)
deriving DecidableEq, Repr

/-- As a client sends it. -/
def Push.client : Push → ClientMsg
  | .grab id seq => .clipboardGrab id seq
  | .data id seq chunk => .clipboardData id seq chunk

/-- As the server sends it. -/
def Push.server : Push → ServerMsg
  | .grab id seq => .clipboardGrab id seq
  | .data id seq chunk => .clipboardData id seq chunk

/-- The messages that push `content` as transfer `seq`. -/
def pushes (cd : Codec) (seq : Nat) (content : ClipboardContent) : List Push :=
  .grab .clipboard seq :: (Chunk.stream (cd.encode content)).map (.data .clipboard seq)

/-- One message of a push: the transfer's number and its contents, when they are complete. -/
def Inbound.take (cd : Codec) (maxBytes : Nat) (i : Inbound) :
    Push → Inbound × Option (Nat × ClipboardContent)
  | .grab id seq => (i.grab id seq maxBytes, none)
  | .data id seq chunk =>
    match i.data cd id seq chunk with
    | (i, .ok (some content)) => (i, some (seq, content))
    | (i, _) => (i, none)

/-- A push of `content` gets through: neither its data nor its encoding is too large. -/
def Fits (cd : Codec) (maxBytes : Nat) (content : ClipboardContent) : Prop :=
  content.dataLen ≤ maxBytes ∧ (cd.encode content).length ≤ maxBytes + encodingSlack

instance (cd : Codec) (maxBytes : Nat) (content : ClipboardContent) :
    Decidable (Fits cd maxBytes content) := by
  unfold Fits; infer_instance

/-! ## Cutting up and putting together

What is cut into chunks and fed back comes out whole, with nothing left over for the next
transfer. -/

/-- The chunks of a list together are the list. -/
theorem flatten_chunksOf {n fuel : Nat} {bytes : Bytes} (hn : 0 < n) (hfuel : bytes.length ≤ fuel) :
    (chunksOf n fuel bytes).flatten = bytes := by
  induction fuel generalizing bytes with
  | zero => rw [List.length_eq_zero_iff.mp (Nat.le_zero.mp hfuel)]; rfl
  | succ fuel ih =>
    unfold chunksOf
    split
    · next hempty => rw [List.isEmpty_iff.mp hempty]; rfl
    · have hrest : (bytes.drop n).length ≤ fuel := by
        rw [List.length_drop]
        omega
      rw [List.flatten_cons, ih hrest, List.take_append_drop]

variable {cd : Codec} {maxBytes seq : Nat}

/-- Nothing comes of chunks no grab announced. -/
theorem feed_ungrabbed (chunks : List Chunk) :
    feed (Inbound.take cd maxBytes) ⟨none⟩ (chunks.map (.data .clipboard seq)) = (⟨none⟩, []) := by
  refine feed_of_ignores fun x hx => ?_
  obtain ⟨chunk, -, rfl⟩ := List.mem_map.mp hx
  rfl

/-- The chunks of data fill the buffer, as long as the limit allows. -/
theorem feed_data {limit : Nat} (asm : ChunkAssembler) (hstarted : asm.started = true)
    (hopen : asm.finished = false) (datas : List Bytes)
    (hlimit : asm.limit = 0 ∨ (asm.buf ++ datas.flatten).length ≤ asm.limit) :
    feed (Inbound.take cd maxBytes) ⟨some ⟨seq, limit, asm⟩⟩
        ((datas.map .data).map (.data .clipboard seq))
      = (⟨some ⟨seq, limit, { asm with buf := asm.buf ++ datas.flatten }⟩⟩, []) := by
  induction datas generalizing asm with
  | nil => simp
  | cons d datas ih =>
    have hfits : ¬ (0 < asm.limit ∧ asm.limit < asm.buf.length + d.length) := by
      rw [List.flatten_cons, List.length_append, List.length_append] at hlimit
      omega
    have hpush : asm.push (.data d) = ({ asm with buf := asm.buf ++ d }, .ok none) := by
      simp only [ChunkAssembler.push, hopen, hstarted, Bool.not_true, Bool.false_eq_true, if_false,
        if_neg hfits]
    have htake : Inbound.take cd maxBytes ⟨some ⟨seq, limit, asm⟩⟩ (.data .clipboard seq (.data d))
        = (⟨some ⟨seq, limit, { asm with buf := asm.buf ++ d }⟩⟩, none) := by
      simp [Inbound.take, Inbound.data, hpush]
    rw [List.map_cons, List.map_cons, feed_cons, htake]
    rw [List.flatten_cons, ← List.append_assoc] at hlimit
    have hrest := ih { asm with buf := asm.buf ++ d } hstarted hopen hlimit
    rw [hrest]
    simp

/-- A transfer that is grabbed and has got its `Start`. -/
def openTransfer (seq maxBytes total : Nat) : Transfer :=
  ⟨seq, maxBytes, { limit := maxBytes + encodingSlack, started := true, expected := total }⟩

/-- The `Start` of a push opens the transfer, unless the encoding is too large. -/
theorem take_start (i : Inbound) (total : Nat) :
    Inbound.take cd maxBytes (i.grab .clipboard seq maxBytes) (.data .clipboard seq (.start total))
      = (if total ≤ maxBytes + encodingSlack then ⟨some (openTransfer seq maxBytes total)⟩
          else ⟨none⟩, none) := by
  have hpos : 0 < maxBytes + encodingSlack := Nat.add_pos_right _ (by decide)
  simp only [Inbound.take, Inbound.data, Inbound.grab, ChunkAssembler.push,
    ChunkAssembler.withLimit]
  by_cases hfits : total ≤ maxBytes + encodingSlack
  · simp [Nat.not_lt.mpr hfits, hfits, openTransfer]
  · simp [hfits, Nat.not_le.mp hfits, hpos]

/-- The `End` of a push completes it, unless the data is too large. -/
theorem take_end (cd : Codec) (maxBytes seq : Nat) (content : ClipboardContent) :
    Inbound.take cd maxBytes
        ⟨some { openTransfer seq maxBytes (cd.encode content).length with
          asm := { (openTransfer seq maxBytes (cd.encode content).length).asm with
            buf := cd.encode content } }⟩ (.data .clipboard seq .end)
      = (⟨none⟩, if content.dataLen ≤ maxBytes then some (seq, content) else none) := by
  simp only [Inbound.take, Inbound.data, openTransfer, ChunkAssembler.push]
  by_cases hfits : content.dataLen ≤ maxBytes
  · simp [cd.decode_encode, hfits, Nat.not_lt.mpr hfits]
  · simp [cd.decode_encode, hfits, Nat.not_le.mp hfits]

/-- **A push comes out as what went in, or as nothing if that does not fit.** -/
theorem feed_pushes (cd : Codec) (maxBytes : Nat) (i : Inbound) (seq : Nat)
    (content : ClipboardContent) :
    feed (Inbound.take cd maxBytes) i (pushes cd seq content)
      = (⟨none⟩, if Fits cd maxBytes content then [(seq, content)] else []) := by
  have hcut : (chunksOf CHUNK_SIZE (cd.encode content).length (cd.encode content)).flatten
      = cd.encode content := flatten_chunksOf (by decide) (Nat.le_refl _)
  have hgrab : Inbound.take cd maxBytes i (.grab .clipboard seq)
      = (i.grab .clipboard seq maxBytes, none) := rfl
  unfold pushes Chunk.stream
  rw [feed_cons, hgrab, List.map_cons, feed_cons, take_start]
  by_cases hlong : (cd.encode content).length ≤ maxBytes + encodingSlack
  · rw [if_pos hlong, List.map_append, feed_append]
    dsimp only
    rw [openTransfer, feed_data _ rfl rfl _ (.inr (by rw [List.nil_append, hcut]; exact hlong)),
      List.map_cons, List.map_nil, feed_cons]
    simp only [List.nil_append, hcut]
    have hend := take_end cd maxBytes seq content
    unfold openTransfer at hend
    rw [hend]
    by_cases hdata : content.dataLen ≤ maxBytes
    · simp [Fits, hdata, hlong]
    · simp [Fits, hdata]
  · rw [if_neg hlong, feed_ungrabbed]
    simp [Fits, hlong]

end GeserDesk
