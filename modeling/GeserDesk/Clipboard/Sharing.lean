import GeserDesk.Clipboard.Transfer

/-!
# What is shared

The options decide what is shared and how much of it; the server tells each client its own when it
connects. So both ends reassemble, and refuse, alike.
-/

namespace GeserDesk

/-- How the server shares clipboards, and the encoding it shares them in. -/
structure SharingConfig where
  codec : Codec
  options : Options := {}

namespace SharingConfig

variable (cfg : SharingConfig)

/-- Whether pushes are reassembled at all. -/
def reassembles : Bool := cfg.options.clipboardSharing || cfg.options.clipboardFiles

/-- Whether a session passes a push that is complete on. -/
def allows (content : ClipboardContent) : Bool :=
  if (content.files cfg.codec).isSome then cfg.options.clipboardFiles
  else cfg.options.clipboardSharing

/-- The most data a push may hold. -/
def maxBytes : Nat := effectiveMax cfg.options.clipboardMaxBytes

/-- What either end makes of one message of a push. -/
def take (i : Inbound) (p : Push) : Inbound × Option (Nat × ClipboardContent) :=
  if cfg.reassembles then i.take cfg.codec cfg.maxBytes p else (i, none)

/-- A push of `content` arrives. -/
def Carries (content : ClipboardContent) : Prop :=
  cfg.reassembles = true ∧ Fits cfg.codec cfg.maxBytes content

instance (content : ClipboardContent) : Decidable (cfg.Carries content) := by
  unfold Carries; infer_instance

/-- What comes of a whole push. -/
theorem feed_take_pushes (i : Inbound) (seq : Nat) (content : ClipboardContent) :
    (feed cfg.take i (pushes cfg.codec seq content)).2
      = if cfg.Carries content then [(seq, content)] else [] := by
  unfold Carries
  by_cases hon : cfg.reassembles = true
  · have htake : cfg.take = Inbound.take cfg.codec cfg.maxBytes := by
      funext i p
      exact if_pos hon
    rw [htake, feed_pushes]
    simp [hon]
  · rw [feed_of_ignores fun p _ => if_neg hon]
    simp [hon]

end SharingConfig

end GeserDesk
