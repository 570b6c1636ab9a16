import GeserDesk.Lib.PressLog
import GeserDesk.Lib.Transition
import GeserDesk.Platform.Pairing
import GeserDesk.Platform.Windows

/-!
# The Windows hooks and the local desktop

The hooks see every key and button event first; the desktop sees the ones they do not swallow.
Keys and buttons may be down from before the start, keys repeat while they are held, and grabs
and releases come at any time.

* **`hooks_give_back`**: the desktop never has a key or a button down that is up, a release is
  swallowed only if the press that began the hold was, and within a grab the events of each key
  and button come in pairs. So it is in every run in which a grab swallows no press of what the
  desktop has down, and no release of it that it has no table for (`LeavesToDesktop`).
* **`repeat_in_grab_strands_key`**: a key pressed before the grab and repeating in it is taken for
  one of the grab's own, its release is swallowed, and the desktop has it down for good.
-/

namespace GeserDesk

structure HookRun where
  hook : HookState
  keys : PressLog WinKey
  buttons : PressLog WinButton
  /-- What the router was told since the last grab. -/
  out : List CaptureEvent := []

inductive HookLabel where
  | key (k : WinKey) (down : Bool)
  | mouse (ev : WinMouse)
  /-- The modifiers and locks are read back, which happens between grabs. -/
  | resync (held : BitVec 16) (caps num : Bool)
  | grab (held : BitVec 16) (caps num : Bool) (center : Point) (cursorMoved : Bool)
  | release

namespace HookRun

variable (translate : Nat → Nat → Typing → Option Char)

def step (s : HookRun) : HookLabel → Option HookRun
  | .key k down =>
    if down = false ∧ k ∉ s.keys.down then none
    else
      let (hook, ev, swallowed) := s.hook.onKey translate k down
      some { s with hook := hook, keys := s.keys.observe k down swallowed,
                    out := s.out ++ ev.toList }
  | .mouse ev =>
    let (hook, out, swallowed) := s.hook.onMouse ev
    match ev with
    | .button b down =>
      if down = false ∧ b ∉ s.buttons.down then none
      else some { s with hook := hook, buttons := s.buttons.observe b down swallowed,
                         out := s.out ++ out.toList }
    | _ => some { s with hook := hook, out := s.out ++ out.toList }
  | .resync held caps num =>
    if s.hook.grabbed then none else some { s with hook := s.hook.resync held caps num }
  | .grab held caps num center cursorMoved =>
    if s.hook.grabbed then none
    else some { s with hook := s.hook.grab held caps num center cursorMoved, out := [] }
  | .release => some { s with hook := s.hook.release }

end HookRun

/-- The hooks and the local desktop, as a transition system. -/
def hookRuns (translate : Nat → Nat → Typing → Option Char) : Lts HookRun HookLabel where
  init s := ∃ center held caps num keys buttons,
    s = { hook := { center := center, held := held, caps := caps, num := num },
          keys := PressLog.start keys, buttons := PressLog.start buttons }
  step := HookRun.step translate

/-- What a grab leaves to the desktop. No key the desktop has down is pressed, or repeats, in a
grab, nor one of the same usage; Home does not repeat under Ctrl and Alt while the desktop has
it down; a release the hook keeps no table for is not one of what the desktop has down; and no
button is pressed in a grab that the desktop or the grab has down already. -/
def LeavesToDesktop (s : HookRun) : HookLabel → Prop
  | .key k down =>
    if k.isHome ∧ down = true ∧ (s.hook.track k down).ctrlAndAltHeld = true then
      ∀ k' ∈ s.keys.seen, k'.isHome = false
    else if s.hook.grabbed = false then True
    else if k.isFake = true ∨ k.hid = none then down = false → k ∉ s.keys.seen
    else if down then ∀ k' ∈ s.keys.seen, k'.isFake = true ∨ k'.hid ≠ k.hid
    else True
  | .mouse (.button b down) =>
    s.hook.grabbed = true → (down = true ∨ b.known = none) → b ∉ s.buttons.seen
      ∧ (down = true → ∀ known ∈ b.known, known.2 ∉ s.hook.buttons)
  | _ => True

instance (s : HookRun) (l : HookLabel) : Decidable (LeavesToDesktop s l) := by
  unfold LeavesToDesktop
  split <;> infer_instance

/-- The desktop gets back what a grab did not take, and the router is told in pairs. -/
structure GivesBack (s : HookRun) : Prop where
  keys : s.keys.Kept
  buttons : s.buttons.Kept
  keyPairs : ∀ hid, ∃ p, phase heldStep false (keyActions hid s.out) = some p
  buttonPairs : ∀ b, ∃ p, phase clickStep false (buttonActions b s.out) = some p

/-! ## The invariant -/

/-- In a grab the tables hold where the events leave each key and button, and nothing the
desktop has down is in them; and the key of a chord that is down was not the desktop's. -/
structure HookInv (s : HookRun) : Prop where
  gives : GivesBack s
  keyTable : s.hook.grabbed = true → ∀ hid,
    phase heldStep false (keyActions hid s.out) = some (s.hook.keys.get? hid).isSome
  buttonTable : s.hook.grabbed = true → ∀ (b : WinButton) button id, b.known = some (button, id) →
    phase clickStep false (buttonActions button s.out) = some (decide (id ∈ s.hook.buttons))
  unknown : s.hook.grabbed = true → ∀ button,
    (∀ (b : WinButton) id, b.known ≠ some (button, id)) →
    buttonActions button s.out = []
  keysApart : s.hook.grabbed = true → ∀ k ∈ s.keys.seen, k.isFake = false → ∀ hid,
    k.hid = some hid → s.hook.keys.get? hid = none
  buttonsApart : s.hook.grabbed = true → ∀ b ∈ s.buttons.seen, ∀ button id,
    b.known = some (button, id) → id ∉ s.hook.buttons
  chord : s.hook.hotkeyDown = true → ∀ k ∈ s.keys.seen, k.isHome = false

/-- The buttons that are known, with the names they are known by. -/
theorem WinButton.mem_of_known {b : WinButton} {button : Button} {id : Nat}
    (h : b.known = some (button, id)) :
    (b, button, id) ∈ [(WinButton.left, Button.left, 1), (.right, .right, 3),
      (.middle, .middle, 2), (.x 1, .back, 8), (.x 2, .forward, 9)] := by
  unfold known at h
  split at h <;> first | (cases h; decide) | cases h

/-- A button is known by one name and one id, and these by one button. -/
theorem WinButton.known_inj {b b' : WinButton} {button button' : Button} {id id' : Nat}
    (h : b.known = some (button, id)) (h' : b'.known = some (button', id')) :
    (button = button' ↔ b = b') ∧ (id = id' ↔ b = b') := by
  have hall : ∀ p ∈ [(WinButton.left, Button.left, 1), (.right, .right, 3),
        (.middle, .middle, 2), (.x 1, .back, 8), (.x 2, .forward, 9)],
      ∀ q ∈ [(WinButton.left, Button.left, 1), (.right, .right, 3),
        (.middle, .middle, 2), (.x 1, .back, 8), (.x 2, .forward, 9)],
      (p.2.1 = q.2.1 ↔ p.1 = q.1) ∧ (p.2.2 = q.2.2 ↔ p.1 = q.1) := by decide
  exact hall _ (mem_of_known h) _ (mem_of_known h')

/-! ## What the hook does with one key event

A few outcomes, each with what is reported and whether the desktop gets the event. -/

/-- What becomes of one key event: the table and the chord after it, the event for the router,
and whether it is swallowed. -/
inductive KeyOutcome (h : HookState) (k : WinKey) (down : Bool) :
    Dict Nat Nat → Bool → Option CaptureEvent → Bool → Prop where
  | chord (ev : Option CaptureEvent)
      (hc : k.isHome = true ∧ down = true ∧ (h.track k down).ctrlAndAltHeld = true)
      (hev : ∀ e ∈ ev, e = .hotkey) : KeyOutcome h k down h.keys true ev true
  | chordHeld (hhome : k.isHome = true) (hhot : h.hotkeyDown = true) :
      KeyOutcome h k down h.keys down none true
  | local (hg : h.grabbed = false) (hhot : h.hotkeyDown = true → k.isHome = false) :
      KeyOutcome h k down h.keys h.hotkeyDown none false
  | noUsage (hg : h.grabbed = true) (hu : k.isFake = true ∨ k.hid = none)
      (hc : ¬(k.isHome = true ∧ down = true ∧ (h.track k down).ctrlAndAltHeld = true)) :
      KeyOutcome h k down h.keys h.hotkeyDown none true
  | press (e : KeyEvent) (n : Nat) (hg : h.grabbed = true) (hf : k.isFake = false)
      (hk : k.hid = some e.hid) (hdown : down = true)
      (hstep : heldStep (h.keys.get? e.hid).isSome e.action = some true)
      (hc : ¬(k.isHome = true ∧ down = true ∧ (h.track k down).ctrlAndAltHeld = true)) :
      KeyOutcome h k down (h.keys.put e.hid n) h.hotkeyDown (some (.key e)) true
  | release (e : KeyEvent) (hg : h.grabbed = true) (hf : k.isFake = false)
      (hk : k.hid = some e.hid) (hdown : down = false) (hin : (h.keys.get? e.hid).isSome)
      (hup : e.action = .up) :
      KeyOutcome h k down (h.keys.drop e.hid) h.hotkeyDown (some (.key e)) true
  | pass (hdown : down = false) : KeyOutcome h k down h.keys h.hotkeyDown none false

namespace HookState

variable (translate : Nat → Nat → Typing → Option Char)

/-- Tracking the modifiers changes nothing else. -/
theorem track_frame (h : HookState) (k : WinKey) (down : Bool) :
    ∃ held, h.track k down = { h with held := held } := by
  unfold track
  split
  · exact ⟨h.held, rfl⟩
  · split
    · exact ⟨_, rfl⟩
    · exact ⟨h.held, rfl⟩

/-- A press is noted, and goes out as a press or a repeat, as the key was up or down. -/
theorem press_spec (h : HookState) (hid : Nat) :
    (∃ n, (h.press hid).1.keys = h.keys.put hid n)
      ∧ (h.press hid).1.grabbed = h.grabbed ∧ (h.press hid).1.buttons = h.buttons
      ∧ (h.press hid).1.hotkeyDown = h.hotkeyDown
      ∧ heldStep (h.keys.get? hid).isSome (h.press hid).2 = some true := by
  unfold press
  cases h.keys.get? hid <;> exact ⟨⟨_, rfl⟩, rfl, rfl, rfl, rfl⟩

/-- In a grab a key without a usage is swallowed and sends nothing. -/
theorem onGrabbedKey_noUsage {h : HookState} {k : WinKey} (hg : h.grabbed = true)
    (hu : k.isFake = true ∨ k.hid = none) (down : Bool) :
    h.onGrabbedKey translate k down = (h, none, true) := by
  rcases hu with hf | hk
  · simp [onGrabbedKey, hg, hf]
  · simp [onGrabbedKey, hg, hk]

/-- The press of a key with a usage, in a grab. -/
theorem onGrabbedKey_press {h : HookState} {k : WinKey} {hid : Nat} (hg : h.grabbed = true)
    (hf : k.isFake = false) (hk : k.hid = some hid) :
    h.onGrabbedKey translate k true = (h.press hid).1.report translate k hid (h.press hid).2 := by
  rw [onGrabbedKey, hg, hf, hk]; rfl

/-- Its release. -/
theorem onGrabbedKey_release {h : HookState} {k : WinKey} {hid : Nat} (hg : h.grabbed = true)
    (hf : k.isFake = false) (hk : k.hid = some hid) :
    h.onGrabbedKey translate k false = if (h.keys.get? hid).isSome then
      { h with keys := h.keys.drop hid }.report translate k hid .up else (h, none, false) := by
  rw [onGrabbedKey, hg, hf, hk]; rfl

/-- **What one key event does.** -/
theorem onKey_outcome (h : HookState) (k : WinKey) (down : Bool) :
    ∃ h' ev swallowed, h.onKey translate k down = (h', ev, swallowed)
      ∧ h'.grabbed = h.grabbed ∧ h'.buttons = h.buttons
      ∧ KeyOutcome h k down h'.keys h'.hotkeyDown ev swallowed := by
  obtain ⟨held, ht⟩ := h.track_frame k down
  have hkeys : (h.track k down).keys = h.keys := by rw [ht]
  have hbuttons : (h.track k down).buttons = h.buttons := by rw [ht]
  have hhot : (h.track k down).hotkeyDown = h.hotkeyDown := by rw [ht]
  have hgrab : (h.track k down).grabbed = h.grabbed := by rw [ht]
  -- past the chord the key is handled by the grab, if there is one
  have hrest : (¬(k.isHome = true ∧ down = true ∧ (h.track k down).ctrlAndAltHeld = true)) →
      (h.hotkeyDown = true → k.isHome = false) →
      ∃ h' ev swallowed, (h.track k down).onGrabbedKey translate k down = (h', ev, swallowed)
        ∧ h'.grabbed = h.grabbed ∧ h'.buttons = h.buttons
        ∧ KeyOutcome h k down h'.keys h'.hotkeyDown ev swallowed := by
    intro hc hhome
    generalize hT : h.track k down = t at *
    cases hg : h.grabbed with
    | false =>
      -- no grab: the key is the desktop's
      refine ⟨t, none, false, ?_, hgrab.trans hg, hbuttons, ?_⟩
      · rw [onGrabbedKey, hgrab, hg]; rfl
      · rw [hkeys, hhot]; exact .local hg hhome
    | true =>
      rw [hg] at hgrab
      by_cases hu : k.isFake = true ∨ k.hid = none
      · refine ⟨t, none, true, onGrabbedKey_noUsage translate hgrab hu down, hgrab, hbuttons, ?_⟩
        rw [hkeys, hhot]
        exact .noUsage hg hu (hT ▸ hc)
      -- a key with a usage: a press is noted, a release is swallowed if its press was
      · obtain ⟨hf, hk⟩ := not_or.mp hu
        have hf : k.isFake = false := Bool.eq_false_iff.mpr hf
        obtain ⟨hid, hk⟩ := Option.ne_none_iff_exists'.mp hk
        cases hd : down with
        | true =>
          rw [hd] at hc hT
          obtain ⟨⟨n, hn⟩, hpg, hpb, hph, hstep⟩ := t.press_spec hid
          rw [onGrabbedKey_press translate hgrab hf hk]
          refine ⟨(t.press hid).1, _, true, rfl, hpg.trans hgrab, hpb.trans hbuttons, ?_⟩
          rw [hn, hph, hhot, hkeys]
          rw [hkeys] at hstep
          exact .press ⟨hid, _, _, (t.press hid).2⟩ n hg hf hk rfl hstep (hT ▸ hc)
        | false =>
          rw [onGrabbedKey_release translate hgrab hf hk, hkeys]
          by_cases hin : (h.keys.get? hid).isSome = true
          · rw [if_pos hin]
            refine ⟨{ t with keys := h.keys.drop hid }, _, true, rfl, hgrab, hbuttons, ?_⟩
            rw [hhot]
            exact .release ⟨hid, _, _, .up⟩ hg hf hk rfl hin rfl
          · rw [if_neg hin]
            refine ⟨t, none, false, rfl, hgrab, hbuttons, ?_⟩
            rw [hkeys, hhot]
            exact .pass rfl
  -- the chord is looked at first
  unfold onKey
  split
  · next hhome =>
    dsimp only
    split
    · next hc =>
      rw [Bool.and_eq_true] at hc
      refine ⟨_, _, _, rfl, hgrab, hbuttons, ?_⟩
      show KeyOutcome h k down (h.track k down).keys true _ true
      rw [hkeys]
      refine .chord _ ⟨hhome, hc⟩ fun e he => ?_
      split at he <;> simp_all
    · next hc =>
      rw [Bool.and_eq_true] at hc
      split
      · next hh =>
        refine ⟨_, _, _, rfl, hgrab, hbuttons, ?_⟩
        show KeyOutcome h k down (h.track k down).keys down _ true
        rw [hkeys]
        exact .chordHeld hhome (hhot ▸ hh)
      · next hh =>
        exact hrest (fun h => hc h.2) fun h => absurd (hhot.trans h) hh
  · next hhome => exact hrest (fun h => hhome h.1) fun _ => Bool.eq_false_iff.mpr hhome

end HookState

/-! ## One step

The invariant through each outcome, for keys and for buttons. -/

/-- What the router is told counts only by the actions of each key and button. -/
theorem HookInv.told {s : HookRun} (hi : HookInv s) {out : List CaptureEvent}
    (hacts : ∀ hid, keyActions hid out = keyActions hid s.out)
    (hclicks : ∀ b, buttonActions b out = buttonActions b s.out) :
    HookInv { s with out := out } := by
  refine ⟨⟨hi.gives.keys, hi.gives.buttons, fun hid => ?_, fun b => ?_⟩, fun h hid => ?_,
    fun h b button id hk => ?_, fun h button hno => ?_, hi.keysApart, hi.buttonsApart, hi.chord⟩
  · rw [show keyActions hid _ = _ from hacts hid]; exact hi.gives.keyPairs hid
  · rw [show buttonActions b _ = _ from hclicks b]; exact hi.gives.buttonPairs b
  · rw [show keyActions hid _ = _ from hacts hid]; exact hi.keyTable h hid
  · rw [show buttonActions button _ = _ from hclicks button]
    exact hi.buttonTable h b button id hk
  · rw [show buttonActions button _ = _ from hclicks button]; exact hi.unknown h button hno

/-- A key event of which the router is told nothing but the chord: the table stays. -/
theorem HookInv.quietKey {s : HookRun} (hi : HookInv s) {k : WinKey} {down swallowed : Bool}
    {hook : HookState} {ev : Option CaptureEvent} (hg : hook.grabbed = s.hook.grabbed)
    (hb : hook.buttons = s.hook.buttons) (hkeys : hook.keys = s.hook.keys)
    (hev : ∀ e ∈ ev, e = .hotkey)
    (hrel : down = false → swallowed = true → k ∉ s.keys.seen)
    (hpress : s.hook.grabbed = true → down = true → swallowed = true)
    (hchord : hook.hotkeyDown = true →
      ∀ k' ∈ (s.keys.observe k down swallowed).seen, k'.isHome = false) :
    HookInv { s with hook := hook, keys := s.keys.observe k down swallowed,
                     out := s.out ++ ev.toList } := by
  have hi : HookInv { s with out := s.out ++ ev.toList } := by
    cases ev with
    | none => rw [Option.toList_none, List.append_nil]; exact hi
    | some e =>
      rw [hev e rfl]
      exact hi.told (fun hid => keyActions_snoc_other hid _ fun _ => CaptureEvent.noConfusion)
        fun b => buttonActions_snoc_other b _ fun _ _ => CaptureEvent.noConfusion
  refine ⟨⟨hi.gives.keys.observe hrel, hi.gives.buttons, hi.gives.keyPairs, hi.gives.buttonPairs⟩,
    fun h hid => ?_, fun h b button id hk => ?_, fun h => hi.unknown (hg ▸ h),
    fun h k' hk' hf hid hh => ?_, fun h b hb' button id hk => ?_, hchord⟩
  · exact (hi.keyTable (hg ▸ h) hid).trans (by rw [show hook.keys = _ from hkeys])
  · exact (hi.buttonTable (hg ▸ h) b button id hk).trans (by rw [show hook.buttons = _ from hb])
  · show hook.keys.get? hid = none
    rw [hkeys]
    exact hi.keysApart (hg ▸ h) k' (PressLog.mem_seen_of_swallowed (hpress (hg ▸ h)) hk') hf hid hh
  · show id ∉ hook.buttons
    rw [hb]
    exact hi.buttonsApart (hg ▸ h) b hb' button id hk

/-- A key event the router is told of: the table of its usage goes on with it. -/
theorem HookInv.toldKey {s : HookRun} (hi : HookInv s) (hgrab : s.hook.grabbed = true)
    {k : WinKey} {down : Bool} {hook : HookState} {e : KeyEvent}
    (hb : hook.buttons = s.hook.buttons) (hhot : hook.hotkeyDown = s.hook.hotkeyDown)
    (hstep : heldStep (s.hook.keys.get? e.hid).isSome e.action
      = some (hook.keys.get? e.hid).isSome)
    (hframe : ∀ hid, hid ≠ e.hid → hook.keys.get? hid = s.hook.keys.get? hid)
    (hrel : down = false → k ∉ s.keys.seen)
    (happ : ∀ k' ∈ s.keys.seen, k'.isFake = false → k'.hid = some e.hid →
      hook.keys.get? e.hid = none) :
    HookInv { s with hook := hook, keys := s.keys.observe k down true,
                     out := s.out ++ [.key e] } := by
  -- only this key's events grow, and only its place in the table changes
  have hseen : ∀ {k'}, k' ∈ (s.keys.observe k down true).seen → k' ∈ s.keys.seen :=
    fun h => PressLog.mem_seen_of_swallowed (fun _ => rfl) h
  have htable : ∀ hid, phase heldStep false (keyActions hid (s.out ++ [.key e]))
      = some (hook.keys.get? hid).isSome := fun hid => by
    rw [keyActions_snoc_key]
    by_cases hx : e.hid = hid
    · rw [if_pos hx, phase_snoc, ← hx, hi.keyTable hgrab]
      exact hstep
    · rw [if_neg hx, hframe hid (Ne.symm hx)]
      exact hi.keyTable hgrab hid
  have hclicks : ∀ b, buttonActions b (s.out ++ [.key e]) = buttonActions b s.out := fun b =>
    buttonActions_snoc_other b _ fun _ _ => CaptureEvent.noConfusion
  -- the fields in their order
  refine ⟨⟨hi.gives.keys.observe fun h _ => hrel h, hi.gives.buttons, fun hid => ⟨_, htable hid⟩,
    fun b => ?_⟩, fun _ hid => htable hid, fun _ b button id hk => ?_, fun _ button hno => ?_,
    fun _ k' hk' hf hid hh => ?_, fun _ b hb' button id hk => ?_, fun h k' hk' => ?_⟩
  · rw [show buttonActions b _ = _ from hclicks b]; exact hi.gives.buttonPairs b
  · rw [show buttonActions button _ = _ from hclicks button]
    exact (hi.buttonTable hgrab b button id hk).trans (by rw [show hook.buttons = _ from hb])
  · rw [show buttonActions button _ = _ from hclicks button]
    exact hi.unknown hgrab button hno
  -- a key apart from those told is apart still
  · show hook.keys.get? hid = none
    by_cases hx : hid = e.hid
    · rw [hx]
      exact happ k' (hseen hk') hf (hx ▸ hh)
    · rw [hframe hid hx]
      exact hi.keysApart hgrab k' (hseen hk') hf hid hh
  · show id ∉ hook.buttons
    rw [hb]
    exact hi.buttonsApart hgrab b hb' button id hk
  · exact hi.chord (hhot ▸ h) k' (hseen hk')

/-- A key event keeps the invariant, whatever the hook makes of it. -/
theorem HookInv.key {s : HookRun} (hi : HookInv s) {k : WinKey} {down swallowed : Bool}
    (hok : LeavesToDesktop s (.key k down)) {hook : HookState} {ev : Option CaptureEvent}
    (hg : hook.grabbed = s.hook.grabbed) (hb : hook.buttons = s.hook.buttons)
    (ho : KeyOutcome s.hook k down hook.keys hook.hotkeyDown ev swallowed) :
    HookInv { s with hook := hook, keys := s.keys.observe k down swallowed,
                     out := s.out ++ ev.toList } := by
  rw [LeavesToDesktop] at hok
  generalize hkeys : hook.keys = keys at ho
  generalize hhot : hook.hotkeyDown = hotkeyDown at ho
  cases ho with
  | chord _ hc hev =>
    rw [if_pos hc] at hok
    refine hi.quietKey hg hb hkeys hev (fun h => ?_) (fun _ _ => rfl) fun _ k' hk' => ?_
    · rw [hc.2.1] at h; cases h
    · exact hok k' (PressLog.mem_seen_of_swallowed (fun _ => rfl) hk')
  | chordHeld hhome hdown =>
    have hseen : ∀ {k'}, k' ∈ s.keys.seen → k'.isHome = false := fun h => hi.chord hdown _ h
    refine hi.quietKey hg hb hkeys (by simp) (fun _ _ hmem => ?_) (fun _ _ => rfl)
      fun _ k' hk' => hseen (PressLog.mem_seen_of_swallowed (fun _ => rfl) hk')
    have := hseen hmem
    rw [hhome] at this
    cases this
  | «local» hgrab hnot =>
    refine hi.quietKey hg hb hkeys (by simp) (fun _ h => (by cases h)) (fun h => ?_) fun h k' hk' => ?_
    · rw [hgrab] at h; cases h
    · rw [hhot] at h
      rcases PressLog.mem_seen_observe hk' with hk' | ⟨rfl, -, -⟩
      · exact hi.chord h k' hk'
      · exact hnot h
  | noUsage hgrab hu hc =>
    rw [if_neg hc, if_neg (by rw [hgrab]; decide), if_pos hu] at hok
    refine hi.quietKey hg hb hkeys (by simp) (fun h _ => hok h) (fun _ _ => rfl) fun h k' hk' => ?_
    exact hi.chord (hhot ▸ h) k' (PressLog.mem_seen_of_swallowed (fun _ => rfl) hk')
  | press e n hgrab hf hk hdown hstep hc =>
    rw [if_neg hc, if_neg (by rw [hgrab]; decide), if_neg (by simp [hf, hk]), if_pos hdown] at hok
    refine hi.toldKey hgrab hb hhot ?_ (fun hid hne => ?_) (fun h => ?_) fun k' hk' hf' hh => ?_
    · rw [hkeys, Dict.get?_put, if_pos rfl]; exact hstep
    · rw [hkeys, Dict.get?_put, if_neg hne]
    · rw [hdown] at h; cases h
    · rcases hok k' hk' with h | h
      · rw [hf'] at h; cases h
      · exact absurd (hh.trans hk.symm) h
  | release e hgrab hf hk hdown hin hup =>
    refine hi.toldKey hgrab hb hhot ?_ (fun hid hne => ?_) (fun _ hmem => ?_) fun k' _ _ _ => ?_
    · rw [hkeys, Dict.get?_drop, if_pos rfl, hup, hin]; rfl
    · rw [hkeys, Dict.get?_drop, if_neg hne]
    · -- what the desktop has down is not in the table
      rw [hi.keysApart hgrab k hmem hf e.hid hk] at hin
      cases hin
    · rw [hkeys, Dict.get?_drop, if_pos rfl]
  | pass hdown =>
    refine hi.quietKey hg hb hkeys (by simp) (fun _ h => (by cases h)) (fun _ h => ?_)
      fun h k' hk' => ?_
    · rw [hdown] at h; cases h
    · rcases PressLog.mem_seen_observe hk' with hk' | ⟨-, h, -⟩
      · exact hi.chord (hhot ▸ ‹_›) k' hk'
      · rw [hdown] at h; cases h

/-- A button event the router is not told of: the table stays. -/
theorem HookInv.quietButton {s : HookRun} (hi : HookInv s) {b : WinButton}
    {down swallowed : Bool} (hrel : down = false → swallowed = true → b ∉ s.buttons.seen)
    (hpress : s.hook.grabbed = true → down = true → swallowed = true) :
    HookInv { s with buttons := s.buttons.observe b down swallowed, out := s.out ++ [] } := by
  rw [List.append_nil]
  exact ⟨⟨hi.gives.keys, hi.gives.buttons.observe hrel, hi.gives.keyPairs, hi.gives.buttonPairs⟩,
    hi.keyTable, hi.buttonTable, hi.unknown, hi.keysApart,
    fun h b' hb' => hi.buttonsApart h b' (PressLog.mem_seen_of_swallowed (hpress h) hb'), hi.chord⟩

/-- A button event the router is told of: the table of its id goes on with it. -/
theorem HookInv.toldButton {s : HookRun} (hi : HookInv s) (hgrab : s.hook.grabbed = true)
    {b : WinButton} {button : Button} {id : Nat} (hk : b.known = some (button, id)) {down : Bool}
    {buttons : Finset Nat}
    (hstep : clickStep (decide (id ∈ s.hook.buttons)) down = some (decide (id ∈ buttons)))
    (hframe : ∀ id', id' ≠ id → (id' ∈ buttons ↔ id' ∈ s.hook.buttons))
    (hseen : b ∉ s.buttons.seen) :
    HookInv { s with hook := { s.hook with buttons := buttons },
                     buttons := s.buttons.observe b down true,
                     out := s.out ++ [.button button down] } := by
  -- a button event is no key's, and no other button's
  have hmem : ∀ {b'}, b' ∈ (s.buttons.observe b down true).seen → b' ∈ s.buttons.seen :=
    fun h => PressLog.mem_seen_of_swallowed (fun _ => rfl) h
  have hacts : ∀ hid, keyActions hid (s.out ++ [.button button down]) = keyActions hid s.out :=
    fun hid => keyActions_snoc_other hid _ fun _ => CaptureEvent.noConfusion
  -- the table of buttons stays that of the actions told, for this button and the others
  have htable : ∀ (b' : WinButton) button' id', b'.known = some (button', id') →
      phase clickStep false (buttonActions button' (s.out ++ [.button button down]))
        = some (decide (id' ∈ buttons)) := fun b' button' id' hk' => by
    obtain ⟨hname, hid⟩ := WinButton.known_inj hk hk'
    rw [buttonActions_snoc_button]
    by_cases hx : b = b'
    · rw [if_pos (hname.mpr hx), phase_snoc, hi.buttonTable hgrab b' button' id' hk',
        ← hid.mpr hx]
      exact hstep
    · rw [if_neg fun h => hx (hname.mp h), hi.buttonTable hgrab b' button' id' hk']
      exact congrArg some (decide_eq_decide.mpr (hframe id' fun h => hx (hid.mp h.symm)).symm)
  have hother : ∀ button', button' ≠ button →
      buttonActions button' (s.out ++ [.button button down]) = buttonActions button' s.out :=
    fun button' hne => by rw [buttonActions_snoc_button, if_neg (Ne.symm hne)]
  refine ⟨⟨hi.gives.keys, hi.gives.buttons.observe fun _ _ => hseen, fun hid => ?_, fun button' => ?_⟩,
    fun h hid => ?_, fun _ b' button' id' hk' => htable b' button' id' hk',
    fun _ button' hno => ?_, hi.keysApart, fun _ b' hb' button' id' hk' => ?_, hi.chord⟩
  -- the fields in their order
  · rw [show keyActions hid _ = _ from hacts hid]; exact hi.gives.keyPairs hid
  · by_cases hx : button' = button
    · rw [hx]
      exact ⟨_, htable b button id hk⟩
    · rw [show buttonActions button' _ = _ from hother button' hx]
      exact hi.gives.buttonPairs button'
  · rw [show keyActions hid _ = _ from hacts hid]; exact hi.keyTable h hid
  · have hx : button' ≠ button := fun h => hno b id (h ▸ hk)
    rw [show buttonActions button' _ = _ from hother button' hx]
    exact hi.unknown hgrab button' hno
  · have hx : b' ≠ b := fun h => hseen (h ▸ hmem hb')
    refine fun hin => hi.buttonsApart hgrab b' (hmem hb') button' id' hk' ?_
    exact (hframe id' fun h => hx ((WinButton.known_inj hk' hk).2.mp h)).mp hin

/-- A mouse button does as well. -/
theorem HookInv.mouseButton {s : HookRun} (hi : HookInv s) {b : WinButton} {down : Bool}
    (hok : LeavesToDesktop s (.mouse (.button b down))) :
    ∃ hook ev swallowed, s.hook.onMouse (.button b down) = (hook, ev, swallowed)
      ∧ HookInv { s with hook := hook, buttons := s.buttons.observe b down swallowed,
                         out := s.out ++ ev.toList } := by
  cases hg : s.hook.grabbed with
  | false =>
    refine ⟨s.hook, none, false, by rw [HookState.onMouse, hg]; rfl, ?_⟩
    exact hi.quietButton (fun _ h => (by cases h)) fun h => by rw [hg] at h; cases h
  | true =>
    cases hk : b.known with
    | none =>
      refine ⟨s.hook, none, true, by rw [HookState.onMouse, hg]; simp only [hk]; rfl, ?_⟩
      exact hi.quietButton (fun _ _ => (hok hg (.inr hk)).1) fun _ _ => rfl
    | some known =>
      obtain ⟨button, id⟩ := known
      have hon : s.hook.onMouse (.button b down) = s.hook.button button id down := by
        rw [HookState.onMouse, hg]; simp only [hk]; rfl
      rw [hon]
      cases down with
      | true =>
        obtain ⟨hseen, hnew⟩ := hok hg (.inl rfl)
        refine ⟨_, _, true, if_pos rfl, hi.toldButton hg hk ?_ (fun id' hne => ?_) hseen⟩
        · simp [hnew rfl _ hk, clickStep]
        · rw [Finset.mem_insert]
          exact ⟨fun h => h.resolve_left hne, Or.inr⟩
      | false =>
        by_cases hin : id ∈ s.hook.buttons
        · refine ⟨_, _, true, by rw [HookState.button, if_neg (by decide), if_pos hin], ?_⟩
          refine hi.toldButton hg hk ?_ (fun id' hne => ?_) ?_
          · simp [hin, clickStep]
          · rw [Finset.mem_erase]; exact ⟨fun h => h.2, fun h => ⟨hne, h⟩⟩
          · exact fun h => hi.buttonsApart hg b h button id hk hin
        · refine ⟨s.hook, none, false, by rw [HookState.button, if_neg (by decide), if_neg hin], ?_⟩
          exact hi.quietButton (fun _ h => (by cases h)) fun _ h => (by cases h)

/-- A mouse event that is no button's. -/
theorem HookInv.otherMouse {s : HookRun} (hi : HookInv s) (ev : WinMouse)
    (hev : ∀ b down, ev ≠ .button b down) :
    ∃ out swallowed, s.hook.onMouse ev = (s.hook, out, swallowed)
      ∧ HookInv { s with out := s.out ++ out.toList } := by
  have hnone : HookInv { s with out := s.out ++ [] } := by rw [List.append_nil]; exact hi
  have hsome : ∀ e : CaptureEvent, (∀ k, e ≠ .key k) → (∀ b d, e ≠ .button b d) →
      HookInv { s with out := s.out ++ [e] } := fun e hkey hbutton =>
    hi.told (fun hid => keyActions_snoc_other hid _ hkey)
      fun b => buttonActions_snoc_other b _ hbutton
  unfold HookState.onMouse
  split
  · exact ⟨none, false, rfl, hnone⟩
  · cases ev with
    | button b down => exact absurd rfl (hev b down)
    | move pt =>
      refine ⟨_, true, rfl, ?_⟩
      split
      · exact hsome _ (fun _ => CaptureEvent.noConfusion) fun _ _ => CaptureEvent.noConfusion
      · exact hnone
    | wheel high =>
      exact ⟨_, true, rfl,
        hsome _ (fun _ => CaptureEvent.noConfusion) fun _ _ => CaptureEvent.noConfusion⟩
    | hwheel high =>
      exact ⟨_, true, rfl,
        hsome _ (fun _ => CaptureEvent.noConfusion) fun _ _ => CaptureEvent.noConfusion⟩
    | other => exact ⟨none, true, rfl, hnone⟩

/-! ## The runs

Every step of the run is one of these. -/

/-- **Every step that leaves to the desktop what is its own keeps the invariant.** -/
theorem HookInv.step {translate : Nat → Nat → Typing → Option Char} {s s' : HookRun}
    {l : HookLabel} (hi : HookInv s) (hok : LeavesToDesktop s l)
    (h : HookRun.step translate s l = some s') : HookInv s' := by
  cases l with
  | key k down =>
    obtain ⟨hook, ev, swallowed, hon, hg, hb, ho⟩ := s.hook.onKey_outcome translate k down
    rw [HookRun.step, hon] at h
    split at h
    · cases h
    · cases h
      exact hi.key hok hg hb ho
  | mouse ev =>
    cases ev with
    -- a button may begin or end a pair; moves and wheels carry none
    | button b down =>
      obtain ⟨hook, ev, swallowed, hon, hi'⟩ := hi.mouseButton hok
      simp only [HookRun.step, hon] at h
      split at h
      · cases h
      · cases h
        exact hi'
    | move pt =>
      obtain ⟨out, swallowed, hon, hi'⟩ := hi.otherMouse (.move pt) fun _ _ => by simp
      simp only [HookRun.step, hon] at h
      cases h
      exact hi'
    | wheel high =>
      obtain ⟨out, swallowed, hon, hi'⟩ := hi.otherMouse (.wheel high) fun _ _ => by simp
      simp only [HookRun.step, hon] at h
      cases h
      exact hi'
    | hwheel high =>
      obtain ⟨out, swallowed, hon, hi'⟩ := hi.otherMouse (.hwheel high) fun _ _ => by simp
      simp only [HookRun.step, hon] at h
      cases h
      exact hi'
    | other =>
      obtain ⟨out, swallowed, hon, hi'⟩ := hi.otherMouse .other fun _ _ => by simp
      simp only [HookRun.step, hon] at h
      cases h
      exact hi'
  -- noting the modifiers reports nothing
  | resync held caps num =>
    rw [HookRun.step] at h
    split at h
    · cases h
    · cases h
      exact ⟨⟨hi.gives.keys, hi.gives.buttons, hi.gives.keyPairs, hi.gives.buttonPairs⟩,
        hi.keyTable, hi.buttonTable, hi.unknown, hi.keysApart, hi.buttonsApart, hi.chord⟩
  -- a new grab forgets what the last one held, and the pairs of the last grab are closed
  | grab held caps num center cursorMoved =>
    rw [HookRun.step] at h
    split at h
    · cases h
    · next hg =>
      have hpairs : GivesBack { s with out := [] } :=
        ⟨hi.gives.keys, hi.gives.buttons, fun _ => ⟨false, rfl⟩, fun _ => ⟨false, rfl⟩⟩
      cases h
      -- the tables are cleared only where the cursor could be moved away
      cases cursorMoved with
      | false =>
        exact ⟨⟨hi.gives.keys, hi.gives.buttons, hpairs.keyPairs, hpairs.buttonPairs⟩,
          fun h => absurd h hg, fun h => absurd h hg, fun h => absurd h hg, fun h => absurd h hg,
          fun h => absurd h hg, hi.chord⟩
      | true =>
        exact ⟨⟨hi.gives.keys, hi.gives.buttons, hpairs.keyPairs, hpairs.buttonPairs⟩,
          fun _ _ => rfl, fun _ _ _ _ _ => rfl, fun _ _ _ => rfl,
          fun _ _ _ _ _ _ => Dict.get?_empty _, fun _ _ _ _ _ _ => Finset.notMem_empty _, hi.chord⟩
  -- after the grab nothing is owed any more
  | release =>
    cases h
    exact ⟨⟨hi.gives.keys, hi.gives.buttons, hi.gives.keyPairs, hi.gives.buttonPairs⟩,
      fun h => (by cases h), fun h => (by cases h), fun h => (by cases h), fun h => (by cases h),
      fun h => (by cases h), hi.chord⟩

/-- **The hooks give back what they did not take.** -/
theorem hooks_give_back {translate : Nat → Nat → Typing → Option Char} {s : HookRun}
    (hs : (hookRuns translate).Reach LeavesToDesktop s) : GivesBack s := by
  refine HookInv.gives (hs.invariant (fun s h => ?_) fun s l s' _ hi hok hl => hi.step hok hl)
  obtain ⟨center, held, caps, num, keys, buttons, rfl⟩ := h
  exact ⟨⟨.start keys, .start buttons, fun _ => ⟨false, rfl⟩, fun _ => ⟨false, rfl⟩⟩,
    fun h => (by cases h), fun h => (by cases h), fun h => (by cases h), fun h => (by cases h),
    fun h => (by cases h), fun h => (by cases h)⟩

/-! ## A hold across a grab, and one that repeats in it -/

/-- The `a` key. -/
def WinKey.a : WinKey := { vk := 0x41, scan := 0x1E, extended := false }

/-- No key and no button down, and nothing grabbed. -/
def HookRun.start : HookRun :=
  { hook := { center := ⟨50, 50⟩, held := 0, caps := false, num := false },
    keys := PressLog.start ∅, buttons := PressLog.start ∅ }

/-- Hooks just installed are a start. -/
theorem HookRun.start_init : (hookRuns fun _ _ _ => none).init HookRun.start :=
  ⟨_, _, _, _, _, _, rfl⟩

/-- `a` and the left button are pressed before a grab and released in it; the chord, and the
right button, are pressed and released in it. -/
def acrossGrab : List HookLabel :=
  [.key .a true, .mouse (.button .left true), .grab 0 false false ⟨50, 50⟩ true,
   .mouse (.move ⟨55, 50⟩), .key .a false, .mouse (.button .left false),
   .key ⟨0xA2, 0x1D, false⟩ true, .key ⟨0xA4, 0x38, false⟩ true, .key ⟨0x24, 0x47, true⟩ true,
   .key ⟨0x24, 0x47, true⟩ true, .key ⟨0x24, 0x47, true⟩ false, .key ⟨0xA4, 0x38, false⟩ false,
   .mouse (.button .right true), .key ⟨0xA2, 0x1D, false⟩ true, .mouse (.button .right false)]

/-- A key that is pressed before a grab and let go of in it. -/
theorem hooks_give_back_across_grab :
    ∃ s, (hookRuns fun _ _ _ => none).exec LeavesToDesktop .start acrossGrab = some s
      ∧ s.keys.seen = ∅ ∧ s.out.count .hotkey = 1
      ∧ keyActions 0xE0 s.out = [.down, .repeat 1] ∧ GivesBack s :=
  have hfin : (((hookRuns fun _ _ _ => none).exec LeavesToDesktop .start acrossGrab).map fun s =>
      (s.keys.seen, s.out.count .hotkey, keyActions 0xE0 s.out))
        = some (∅, 1, [.down, .repeat 1]) := by decide +kernel
  match h : (hookRuns fun _ _ _ => none).exec LeavesToDesktop .start acrossGrab, hfin with
  | some s, hfin => by
    simp only [Option.map_some, Option.some.injEq, Prod.mk.injEq] at hfin
    obtain ⟨hseen, hcount, hctrl⟩ := hfin
    exact ⟨s, rfl, hseen, hcount, hctrl, hooks_give_back (Lts.reach_of_exec HookRun.start_init h)⟩

/-- `a` is pressed before a grab, repeats in it and is released in it. -/
def repeatInGrab : List HookLabel :=
  [.key .a true, .grab 0 false false ⟨50, 50⟩ true, .key .a true, .key .a false]

/-- The release of `a` is swallowed though the press that began the hold was the desktop's, which
is left with `a` down. -/
theorem repeat_in_grab_strands_key :
    ∃ s, (hookRuns fun _ _ _ => none).Reachable s ∧ WinKey.a ∈ s.keys.seen
      ∧ WinKey.a ∉ s.keys.down ∧ s.keys.torn = 1 ∧ ¬GivesBack s :=
  have hfin : (((hookRuns fun _ _ _ => none).run .start repeatInGrab).map fun s =>
      (decide (WinKey.a ∈ s.keys.seen), decide (WinKey.a ∈ s.keys.down), s.keys.torn))
        = some (true, false, 1) := by decide +kernel
  match h : (hookRuns fun _ _ _ => none).run .start repeatInGrab, hfin with
  | some s, hfin => by
    simp only [Option.map_some, Option.some.injEq, Prod.mk.injEq, decide_eq_true_eq,
      decide_eq_false_iff_not] at hfin
    obtain ⟨hseen, hdown, htorn⟩ := hfin
    exact ⟨s, Lts.reachable_of_run HookRun.start_init h, hseen, hdown, htorn,
      fun hg => hdown (hg.keys.seen_down hseen)⟩

end GeserDesk
