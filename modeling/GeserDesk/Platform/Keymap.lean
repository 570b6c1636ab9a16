import Mathlib.Data.List.Pairwise
import GeserDesk.Proto.Input

/-!
# Physical key identity — evdev scan codes and Windows key events to HID usage codes

`geserdesk-platform/src/keymap.rs` and the codes of `geserdesk-proto/src/consumer.rs`. The keys
that are not on the keyboard usage page travel as the page number in the high byte and the
usage below it.
-/

namespace GeserDesk

namespace Consumer

def CONSUMER : Nat := 0x0C00
def TELEPHONY : Nat := 0x0B00

/-- Whether `hid` is one of these keys and not a keyboard usage. -/
def isExtra (hid : Nat) : Bool := decide (0x0B00 ≤ hid)

-- Sound.
def MUTE : Nat := CONSUMER + 0xE2
def VOLUME_UP : Nat := CONSUMER + 0xE9
def VOLUME_DOWN : Nat := CONSUMER + 0xEA
def MIC_MUTE : Nat := TELEPHONY + 0x2F

-- Media.
def PLAY_PAUSE : Nat := CONSUMER + 0xCD
def NEXT_TRACK : Nat := CONSUMER + 0xB5
def PREVIOUS_TRACK : Nat := CONSUMER + 0xB6
def STOP : Nat := CONSUMER + 0xB7

-- The screen.
def BRIGHTNESS_UP : Nat := CONSUMER + 0x6F
def BRIGHTNESS_DOWN : Nat := CONSUMER + 0x70

-- Launchers.
def MAIL : Nat := CONSUMER + 0x18A
def CALCULATOR : Nat := CONSUMER + 0x192
def EXPLORER : Nat := CONSUMER + 0x194
def BROWSER : Nat := CONSUMER + 0x196

-- Browser keys.
def BROWSER_SEARCH : Nat := CONSUMER + 0x221
def BROWSER_HOME : Nat := CONSUMER + 0x223
def BROWSER_BACK : Nat := CONSUMER + 0x224
def BROWSER_FORWARD : Nat := CONSUMER + 0x225
def BROWSER_STOP : Nat := CONSUMER + 0x226
def BROWSER_REFRESH : Nat := CONSUMER + 0x227
def BROWSER_FAVORITES : Nat := CONSUMER + 0x22A

end Consumer

open Consumer

/-- The arms of `evdev_to_hid` that name one key. -/
def evdevTable : List (Nat × Nat) :=
  -- Letters (evdev follows the QWERTY rows, HID is alphabetical).
  [(30, 0x04), (48, 0x05), (46, 0x06), (32, 0x07), (18, 0x08), (33, 0x09), (34, 0x0A), (35, 0x0B),
   (23, 0x0C), (36, 0x0D), (37, 0x0E), (38, 0x0F), (50, 0x10), (49, 0x11), (24, 0x12), (25, 0x13),
   (16, 0x14), (19, 0x15), (31, 0x16), (20, 0x17), (22, 0x18), (47, 0x19), (17, 0x1A), (45, 0x1B),
   (21, 0x1C), (44, 0x1D),
   (11, 0x27), (28, 0x28), (1, 0x29), (14, 0x2A), (15, 0x2B), (57, 0x2C), (12, 0x2D), (13, 0x2E),
   (26, 0x2F), (27, 0x30), (43, 0x31), (39, 0x33), (40, 0x34), (41, 0x35), (51, 0x36), (52, 0x37),
   (53, 0x38), (58, 0x39),
   (87, 0x44), (88, 0x45), (99, 0x46), (70, 0x47), (119, 0x48), (110, 0x49), (102, 0x4A),
   (104, 0x4B), (111, 0x4C), (107, 0x4D), (109, 0x4E), (106, 0x4F), (105, 0x50), (108, 0x51),
   (103, 0x52), (69, 0x53), (98, 0x54), (55, 0x55), (74, 0x56), (78, 0x57), (96, 0x58), (79, 0x59),
   (80, 0x5A), (81, 0x5B), (75, 0x5C), (76, 0x5D), (77, 0x5E), (71, 0x5F), (72, 0x60), (73, 0x61),
   (82, 0x62), (83, 0x63), (86, 0x64), (127, 0x65),
   -- Modifiers.
   (29, 0xE0), (42, 0xE1), (56, 0xE2), (125, 0xE3), (97, 0xE4), (54, 0xE5), (100, 0xE6),
   (126, 0xE7),
   -- The top row of a laptop and the extra keys of a multimedia keyboard.
   (113, MUTE), (114, VOLUME_DOWN), (115, VOLUME_UP), (248, MIC_MUTE), (163, NEXT_TRACK),
   (164, PLAY_PAUSE), (165, PREVIOUS_TRACK), (166, STOP), (224, BRIGHTNESS_DOWN),
   (225, BRIGHTNESS_UP), (155, MAIL), (140, CALCULATOR), (157, EXPLORER), (150, BROWSER),
   (217, BROWSER_SEARCH), (172, BROWSER_HOME), (158, BROWSER_BACK), (159, BROWSER_FORWARD),
   (128, BROWSER_STOP), (173, BROWSER_REFRESH), (156, BROWSER_FAVORITES)]

/-- Map a Linux evdev key code to a HID keyboard usage, if it has one. -/
def evdevToHid (code : Nat) : Option Nat :=
  -- Digits 1 to 9, and F1 to F10.
  if 2 ≤ code ∧ code ≤ 10 then some (0x1E + (code - 2))
  else if 59 ≤ code ∧ code ≤ 68 then some (0x3A + (code - 59))
  else evdevTable.lookup code

/-- Every key that is known has a code below 256. -/
theorem evdevToHid_lt {code hid : Nat} (h : evdevToHid code = some hid) : code < 256 := by
  unfold evdevToHid at h
  split at h
  · omega
  · split at h
    · omega
    · rw [List.lookup_eq_some_iff] at h
      obtain ⟨pre, post, heq, -⟩ := h
      have hall : ∀ e ∈ evdevTable, e.1 < 256 := by decide
      exact hall (code, hid) (heq ▸ List.mem_append_right _ List.mem_cons_self)

/-- Every mapped usage is unique. -/
theorem evdevToHid_inj {a b hid : Nat} (ha : evdevToHid a = some hid)
    (hb : evdevToHid b = some hid) : a = b := by
  have hnodup : ((List.range 256).filterMap evdevToHid).Nodup := by decide +kernel
  rw [List.Nodup, List.pairwise_filterMap] at hnodup
  by_contra hne
  have hsymm : Std.Symm fun a b => ∀ x, evdevToHid a = some x →
      ∀ y, evdevToHid b = some y → x ≠ y := ⟨fun _ _ h x hx y hy e => h y hy x hx e.symm⟩
  exact hnodup.forall (List.mem_range.mpr (evdevToHid_lt ha))
    (List.mem_range.mpr (evdevToHid_lt hb)) hne hid ha hid hb rfl

/-- The keys Windows gives a virtual key that decides. -/
def winVkTable : List (Nat × Nat) :=
  [(0x90, 0x53), (0x13, 0x48), (0x2C, 0x46), (0xAD, MUTE), (0xAE, VOLUME_DOWN), (0xAF, VOLUME_UP),
   (0xB0, NEXT_TRACK), (0xB1, PREVIOUS_TRACK), (0xB2, STOP), (0xB3, PLAY_PAUSE), (0xB4, MAIL),
   (0xB6, EXPLORER), (0xB7, CALCULATOR), (0xA6, BROWSER_BACK), (0xA7, BROWSER_FORWARD),
   (0xA8, BROWSER_REFRESH), (0xA9, BROWSER_STOP), (0xAA, BROWSER_SEARCH),
   (0xAB, BROWSER_FAVORITES), (0xAC, BROWSER_HOME)]

/-- The scan codes with the `E0` prefix. -/
def winExtendedTable : List (Nat × Nat) :=
  [(0x1C, 0x58), (0x1D, 0xE4), (0x35, 0x54), (0x38, 0xE6), (0x47, 0x4A), (0x48, 0x52),
   (0x49, 0x4B), (0x4B, 0x50), (0x4D, 0x4F), (0x4F, 0x4D), (0x50, 0x51), (0x51, 0x4E),
   (0x52, 0x49), (0x53, 0x4C), (0x5B, 0xE3), (0x5C, 0xE7), (0x5D, 0x65)]

/-- The plain scan codes, outside the two ranges. -/
def winScanTable : List (Nat × Nat) :=
  [(0x01, 0x29), (0x0B, 0x27), (0x0C, 0x2D), (0x0D, 0x2E), (0x0E, 0x2A), (0x0F, 0x2B),
   (0x10, 0x14), (0x11, 0x1A), (0x12, 0x08), (0x13, 0x15), (0x14, 0x17), (0x15, 0x1C),
   (0x16, 0x18), (0x17, 0x0C), (0x18, 0x12), (0x19, 0x13), (0x1A, 0x2F), (0x1B, 0x30),
   (0x1C, 0x28), (0x1D, 0xE0), (0x1E, 0x04), (0x1F, 0x16), (0x20, 0x07), (0x21, 0x09),
   (0x22, 0x0A), (0x23, 0x0B), (0x24, 0x0D), (0x25, 0x0E), (0x26, 0x0F), (0x27, 0x33),
   (0x28, 0x34), (0x29, 0x35), (0x2A, 0xE1), (0x2B, 0x31), (0x2C, 0x1D), (0x2D, 0x1B),
   (0x2E, 0x06), (0x2F, 0x19), (0x30, 0x05), (0x31, 0x11), (0x32, 0x10), (0x33, 0x36),
   (0x34, 0x37), (0x35, 0x38), (0x36, 0xE5), (0x37, 0x55), (0x38, 0xE2), (0x39, 0x2C),
   (0x3A, 0x39), (0x46, 0x47), (0x47, 0x5F), (0x48, 0x60), (0x49, 0x61), (0x4A, 0x56),
   (0x4B, 0x5C), (0x4C, 0x5D), (0x4D, 0x5E), (0x4E, 0x57), (0x4F, 0x59), (0x50, 0x5A),
   (0x51, 0x5B), (0x52, 0x62), (0x53, 0x63), (0x56, 0x64), (0x57, 0x44), (0x58, 0x45)]

/-- Map a Windows key event to a HID keyboard usage, if it has one: scan codes decide, but for
the keys that are told by their virtual key. -/
def winKeyToHid (vk scan : Nat) (extended : Bool) : Option Nat :=
  -- F13 to F20.
  if 0x7C ≤ vk ∧ vk ≤ 0x83 then some (0x68 + (vk - 0x7C))
  else match winVkTable.lookup vk with
    | some hid => some hid
    | none =>
      if extended then winExtendedTable.lookup scan
      -- Digits 1 to 9, and F1 to F10.
      else if 0x02 ≤ scan ∧ scan ≤ 0x0A then some (0x1E + (scan - 0x02))
      else if 0x3B ≤ scan ∧ scan ≤ 0x44 then some (0x3A + (scan - 0x3B))
      else winScanTable.lookup scan

/-- Whether the usage is a printable character key. Those travel with a `ch`. -/
def hidIsPrintable (hid : Nat) : Bool :=
  decide (0x04 ≤ hid ∧ hid ≤ 0x27) || decide (0x2D ≤ hid ∧ hid ≤ 0x38)
    || decide (0x54 ≤ hid ∧ hid ≤ 0x57) || decide (0x59 ≤ hid ∧ hid ≤ 0x63) || hid == 0x64

/-- Home, the key of the screen-switch chord. -/
example : evdevToHid 102 = some 0x4A ∧ winKeyToHid 0x24 0x47 true = some 0x4A := by decide

end GeserDesk
