import GeserDesk.Client.Clipboard
import GeserDesk.Clipboard.Content
import GeserDesk.Server.Relay
import Mathlib.Algebra.Order.BigOperators.Group.List
import Mathlib.Algebra.Order.Group.Nat

/-!
# Limits at both ends

What a machine pushes of a copy, against what the other end lets through. Data is cut down to
`clipboard_max_bytes` before it is sent; a manifest is checked against `clipboard_files_max_bytes`,
which counts the files, and then meets the receiver's `clipboard_max_bytes`, which counts the
manifest.

* **`copies_received_iff`**: every push of a copy is received as what was pushed, unless it is of
  files whose encoded manifest is larger than the limit for data.
-/

namespace GeserDesk

/-- What a user copied: the formats on the clipboard, or files as they were collected. -/
inductive Copied where
  | data (text html : Option String) (png : Bytes)
  | files (manifest : FileManifest) (abs : List String)

/-- What the clipboard gives of a copy of data. -/
def Copied.found : Copied → Option ClipboardContent
  | .data text html png => some ((ClipboardContent.new text html).withImage png)
  | .files _ _ => none

/-- The files, and where they are. -/
def Copied.collected : Copied → Option (FileManifest × List String)
  | .data _ _ _ => none
  | .files manifest abs => some (manifest, abs)

namespace SharingConfig

variable (cfg : SharingConfig)

/-- What `ClipboardSync::poll` makes of it: what fits. -/
def polled (copied : Copied) : Option ClipboardContent :=
  copied.found.bind fun content => content.fit cfg.codec cfg.maxBytes

/-- The messages with which a client pushes a copy. -/
def clientPush (c : ClientClipboard) (copied : Copied) : List Push :=
  (c.changed cfg copied.collected (cfg.polled copied)).2

/-- The messages with which the server pushes a copy of its own, as transfer `seq`. -/
def serverPush (seq : Nat) (copied : Copied) : List ServerMsg :=
  match (if cfg.options.clipboardFiles then copied.collected else none) with
  | some (manifest, _) => cfg.messages seq (.withFiles cfg.codec manifest)
  | none =>
    match cfg.polled copied with
    | some content => cfg.messages seq content
    | none => []

/-- Nothing was pushed, or contents that the receiver, whatever it received before, gets whole. -/
def Received (ps : List Push) : Prop :=
  ps = [] ∨ ∃ seq content, ps = pushes cfg.codec seq content
    ∧ ∀ i, feed (Inbound.take cfg.codec cfg.maxBytes) i ps = (⟨none⟩, [(seq, content)])

end SharingConfig

/-- The default options of a server, but for those given, in the encoding of the source. -/
def postcardSharing (options : Options) : SharingConfig := ⟨.postcard, options⟩

/-- A push is received just if its contents fit. -/
theorem received_pushes_iff (cfg : SharingConfig) (seq : Nat) (content : ClipboardContent) :
    cfg.Received (pushes cfg.codec seq content) ↔ Fits cfg.codec cfg.maxBytes content := by
  constructor
  · rintro (hnone | ⟨seq', content', -, hfeed⟩)
    · cases hnone
    · have hout := hfeed ⟨none⟩
      rw [feed_pushes] at hout
      by_contra hlarge
      rw [if_neg hlarge] at hout
      cases (Prod.mk.inj hout).2
  · intro hfits
    refine .inr ⟨seq, content, rfl, fun i => ?_⟩
    rw [feed_pushes, if_pos hfits]

/-- No limit is above the hard one. -/
theorem maxBytes_le (cfg : SharingConfig) : cfg.maxBytes ≤ hardMaxBytes := by
  unfold SharingConfig.maxBytes effectiveMax
  split
  · exact Nat.le_refl _
  · exact Nat.min_le_right _ _

/-- No limit is zero. -/
theorem maxBytes_pos (cfg : SharingConfig) : 0 < cfg.maxBytes := by
  unfold SharingConfig.maxBytes effectiveMax
  split
  · decide
  · next hset => exact Nat.lt_min.mpr ⟨Nat.pos_of_ne_zero hset, by decide⟩

/-- The data of one format is no longer than that of all. -/
theorem length_data_le {c : ClipboardContent} {i : ClipboardItem} (h : i ∈ c.items) :
    i.data.length ≤ c.dataLen :=
  List.le_sum_of_mem (List.mem_map_of_mem h)

/-- What is left of a copy of data is received. -/
theorem fits_of_polled {options : Options} {text html : Option String} {png : Bytes}
    {content : ClipboardContent}
    (h : (postcardSharing options).polled (.data text html png) = some content) :
    Fits .postcard (postcardSharing options).maxBytes content := by
  obtain ⟨hplain, hlen⟩ :=
    ClipboardContent.fit_spec (ClipboardContent.plain_withImage text html png) h
  have hmax := maxBytes_le (postcardSharing options)
  have hshort : ∀ i ∈ content.items, i.Short := by
    intro i hi
    refine ⟨?_, ?_⟩
    · rcases hplain.2 i hi with he | he | he <;> rw [he] <;> decide
    · exact Nat.lt_of_le_of_lt (length_data_le hi |>.trans (hlen.trans hmax)) (by decide)
  have hencoded := encode_length_le hplain.1 hshort
  exact ⟨hlen, by omega⟩

/-- A manifest is received if and only if its encoding is not larger than the limit for data. -/
theorem fits_withFiles_iff (options : Options) (manifest : FileManifest) :
    Fits .postcard (postcardSharing options).maxBytes (.withFiles .postcard manifest)
      ↔ (Codec.postcard.encodeManifest manifest).length ≤ (postcardSharing options).maxBytes := by
  have hmax := maxBytes_le (postcardSharing options)
  have hpos := maxBytes_pos (postcardSharing options)
  unfold ClipboardContent.withFiles
  by_cases hempty : manifest.entries.isEmpty = true
  · -- an empty manifest is sent as a copy of nothing
    rw [if_pos hempty]
    obtain ⟨entries⟩ := manifest
    obtain rfl : entries = [] := List.isEmpty_iff.mp hempty
    have hone : (Codec.postcard.encodeManifest ⟨[]⟩).length = 1 := by decide
    have hnothing : (Codec.postcard.encode ⟨[]⟩).length = 1 := by decide
    rw [hone]
    refine iff_of_true ⟨Nat.zero_le _, ?_⟩ hpos
    rw [hnothing]
    exact Nat.le_trans hpos (Nat.le_add_right _ _)
  · rw [if_neg hempty]
    have hlen : ClipboardContent.dataLen ⟨[⟨MIME_FILES, Codec.postcard.encodeManifest manifest⟩]⟩
        = (Codec.postcard.encodeManifest manifest).length := by
      simp [ClipboardContent.dataLen]
    unfold Fits
    rw [hlen]
    refine ⟨fun h => h.1, fun h => ⟨h, ?_⟩⟩
    have hencoded := encode_length_le
      (c := ⟨[⟨MIME_FILES, Codec.postcard.encodeManifest manifest⟩]⟩) (Nat.le_add_left 1 2)
      fun i hi => by
        rw [List.mem_singleton.mp hi]
        have hname : (textBytes MIME_FILES).length < 128 := by decide
        exact ⟨hname, Nat.lt_of_le_of_lt (h.trans hmax) (by decide)⟩
    rw [hlen] at hencoded
    omega

/-- A copy of files that the receiver would refuse is not made. -/
def Copied.Announceable (copied : Copied) (options : Options) : Prop :=
  ∀ manifest abs, copied = .files manifest abs → options.clipboardFiles = true →
    (Codec.postcard.encodeManifest manifest).length ≤ effectiveMax options.clipboardMaxBytes

/-- **Every copy a limit lets through is received, and no other**, whichever side it is made on. -/
theorem copies_received_iff (options : Options) (copied : Copied) :
    ((∀ c : ClientClipboard,
        (postcardSharing options).Received ((postcardSharing options).clientPush c copied))
      ∧ ∀ seq, ∃ ps, (postcardSharing options).serverPush seq copied = ps.map Push.server
        ∧ (postcardSharing options).Received ps)
      ↔ copied.Announceable options := by
  constructor
  · rintro ⟨hclient, -⟩ manifest abs rfl hon
    -- a client that has nothing unconfirmed pushes it
    have hpush : (postcardSharing options).clientPush {} (.files manifest abs)
        = pushes .postcard 1 (.withFiles .postcard manifest) := by
      simp [SharingConfig.clientPush, ClientClipboard.changed, ClientClipboard.looksForFiles,
        postcardSharing, hon, Copied.collected, ClientClipboard.push]
    have hreceived := hclient {}
    rw [hpush] at hreceived
    exact (fits_withFiles_iff options manifest).mp ((received_pushes_iff _ _ _).mp hreceived)
  · intro hok
    constructor
    · intro c
      unfold SharingConfig.clientPush ClientClipboard.changed
      cases copied with
      | data text html png =>
        simp only [Copied.collected, ite_self]
        split
        · next content hsent =>
          rw [ite_eq_iff] at hsent
          obtain ⟨-, hpolled⟩ | ⟨-, hnone⟩ := hsent
          · exact (received_pushes_iff _ _ _).mpr (fits_of_polled hpolled)
          · cases hnone
        · exact .inl rfl
      | files manifest abs =>
        simp only [Copied.collected, SharingConfig.polled, Copied.found, Option.bind_none, ite_self]
        split
        · next m a hsent =>
          rw [ite_eq_iff] at hsent
          obtain ⟨hlooks, hcollected⟩ | ⟨-, hnone⟩ := hsent
          · obtain ⟨rfl, rfl⟩ := Prod.mk.inj (Option.some.inj hcollected)
            have hon : options.clipboardFiles = true := (Bool.and_eq_true_iff.mp hlooks).1
            exact (received_pushes_iff _ _ _).mpr
              ((fits_withFiles_iff options manifest).mpr (hok manifest abs rfl hon))
          · cases hnone
        · exact .inl rfl
    · intro seq
      unfold SharingConfig.serverPush
      cases copied with
      | data text html png =>
        simp only [Copied.collected, ite_self]
        split
        · next content hpolled =>
          exact ⟨_, SharingConfig.messages_eq _ seq content,
            (received_pushes_iff _ _ _).mpr (fits_of_polled hpolled)⟩
        · exact ⟨[], rfl, .inl rfl⟩
      | files manifest abs =>
        simp only [Copied.collected, SharingConfig.polled, Copied.found, Option.bind_none]
        by_cases hon : (postcardSharing options).options.clipboardFiles = true
        · rw [if_pos hon]
          exact ⟨_, SharingConfig.messages_eq _ seq _, (received_pushes_iff _ _ _).mpr
            ((fits_withFiles_iff options manifest).mpr (hok manifest abs rfl hon))⟩
        · rw [if_neg hon]
          exact ⟨[], rfl, .inl rfl⟩

/-- With data limited to 8 bytes, a client announces an empty file whose name has eight letters. The
encoded manifest has 12 bytes, and is refused. -/
theorem long_manifest_refused :
    ¬ ∀ (options : Options) (copied : Copied) (c : ClientClipboard),
      (postcardSharing options).Received ((postcardSharing options).clientPush c copied) := by
  intro hall
  have hreceived := hall { clipboardMaxBytes := 8 } (.files ⟨[⟨"notes.md", 0, false⟩]⟩ ["/notes.md"]) {}
  have hfits := (received_pushes_iff (postcardSharing { clipboardMaxBytes := 8 }) 1
    (.withFiles .postcard ⟨[⟨"notes.md", 0, false⟩]⟩)).mp hreceived
  exact absurd hfits (by decide)

end GeserDesk
