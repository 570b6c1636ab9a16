import GeserDesk.Client.KeyWords
import GeserDesk.Lib.Transition
import GeserDesk.Server.Bounce
import GeserDesk.Server.OneCursor

/-!
# Key rules over whole runs

A run of the core on its own: capture events and changes from the hub, in any order. Beside the
core the run notes how each key went down in the span of input that is going on, as itself or
as the action of a rule. From that and the rules alone it is clear what a key event owes the
client (`KeyRun.owed`).

* **`special_keys`**: the client gets what it is owed, in every run in which a key whose press
  fired a rule is let go of before it is pressed for a client again (`LetGoFirst`).
* **`fired_key_outlives_span`**: the core does not forget the keys that fired when the span
  ends. Pressed in the next one, such a key still goes as the action it stood for.
-/

namespace GeserDesk

/-- The core, and how the keys that are down went down since its last `Enter` (bookkeeping
only): `some action` for a press that fired a rule. -/
structure KeyRun where
  core : Core
  pressed : Dict Nat (Option Nat) := ∅

/-- A key event that says nothing but the key. -/
def bareKey (action : KeyAction) (hid : Nat) : KeyEvent := ⟨hid, none, .empty, action⟩

/-- The keys of the rule's modifiers. -/
def Rule.releases (r : Rule) : List Nat :=
  MODIFIER_KEYS.flatMap fun (bit, keys) => if r.mods.contains bit then keys else []

/-- The rule whose combination this press is, if any. -/
def Core.ruleFor (c : Core) (k : KeyEvent) : Option Rule :=
  c.keyRules.find? fun r => r.matches k.hid k.mods

namespace KeyRun

/-- A key event of the span, noted. -/
def note (s : KeyRun) (k : KeyEvent) : Dict Nat (Option Nat) :=
  match k.action with
  | .down => s.pressed.put k.hid ((s.core.ruleFor k).map (·.action))
  | .up => s.pressed.drop k.hid
  | .repeat _ => s.pressed

/-- A span ends when the input comes home and when the next `Enter` is sent. -/
def step (s : KeyRun) (input : CoreInput) : Option KeyRun :=
  let core := (s.core.react input).1
  if core.activeRemote = none ∨ core.seq ≠ s.core.seq then some ⟨core, ∅⟩
  else
    match input with
    | .capture (.key k) _ => some ⟨core, s.note k⟩
    | _ => some { s with core := core }

/-- What a key event owes the client that has the input. A key that went down before the span
began is not promised anything. -/
def owed (s : KeyRun) (k : KeyEvent) : Option (List KeyEvent) :=
  match k.action with
  | .down =>
    match s.core.ruleFor k with
    | some r => some (r.releases.map (bareKey .up) ++ [bareKey .down r.action])
    | none => some [k]
  | .up | .repeat _ =>
    match s.pressed.get? k.hid with
    | some (some action) => some [bareKey k.action action]
    | some none => some [k]
    | none => none

/-- What is owed for a repeat or a release is the key as it went down. -/
theorem owed_held (s : KeyRun) {k : KeyEvent} (hheld : k.action ≠ .down) :
    s.owed k = match s.pressed.get? k.hid with
      | some (some action) => some [bareKey k.action action]
      | some none => some [k]
      | none => none := by
  unfold owed
  split
  · next hdown => exact absurd hdown hheld
  · rfl
  · rfl

end KeyRun

def keyRuns : Lts KeyRun CoreInput where
  init s := ∃ core : Core, core.IsNew ∧ s = { core := core }
  step := KeyRun.step

/-- No key goes down for a client whose earlier press fired a rule and that was not let go of. -/
def LetGoFirst (s : KeyRun) : CoreInput → Prop
  | .capture (.key k) _ =>
    k.action = .down → s.core.activeRemote.isSome = true → s.core.fired.get? k.hid = none
  | _ => True

instance (s : KeyRun) (input : CoreInput) : Decidable (LetGoFirst s input) := by
  unfold LetGoFirst
  split <;> infer_instance

/-! ## The keys that fired, reaction by reaction

Only key events change which keys have fired; every other reaction leaves the table alone. -/

namespace Core

variable {c : Core}

/-- A pointer sample fires no rule. -/
theorem onPointer_fired (c : Core) (p : Point) (nowMs : Nat) :
    (c.onPointer p nowMs).1.fired = c.fired := by
  cases hs : c.state with
  | remote screen pos => rw [onPointer, hs]
  | local_ =>
    have hsampled := onPointer_sampled hs p nowMs
    generalize (c.onPointer p nowMs).1 = c', (c.onPointer p nowMs).2 = acts at hsampled ⊢
    cases hsampled with
    | off hfind => rfl
    | inland hfind hcross => rfl
    | held hfind hcross hgates hheld => rfl
    | crosses hfind hcross hgates => rfl

/-- The hotkey fires no rule. -/
theorem onHotkey_fired (c : Core) : c.onHotkey.1.fired = c.fired := by
  unfold onHotkey
  split
  · rfl
  · split <;> rfl

/-- A grab that failed fires no rule. -/
theorem onGrabFailed_fired (c : Core) : c.onGrabFailed.1.fired = c.fired := by
  unfold onGrabFailed
  split <;> rfl

/-- A motion fires no rule. -/
theorem onMotion_fired (c : Core) (dx dy : Int) : (c.onMotion dx dy).1.fired = c.fired := by
  unfold onMotion
  split
  · rfl
  · dsimp only
    split
    · rfl
    · split
      · rfl
      · split
        · unfold crossTo
          split <;> rfl
        · rfl

/-- The end of a client fires no rule. -/
theorem clientDisconnected_fired (c : Core) (name : String) :
    (c.clientDisconnected name).1.fired = c.fired := by
  unfold clientDisconnected
  dsimp only
  split
  · split <;> rfl
  · rfl

/-- An event of the hub fires no rule. -/
theorem onHubEvent_fired (c : Core) (ev : HubEvent) : (c.onHubEvent ev).1.fired = c.fired := by
  cases ev with
  | disconnected name => exact c.clientDisconnected_fired name
  | connected name monitors => rfl
  | positions positions => rfl
  | sizes sizes => rfl
  | screenAdded name =>
    show (c.addScreen name).fired = c.fired
    unfold addScreen
    dsimp only
    split <;> rfl
  | localMonitors monitors =>
    show (c.setLocalMonitors monitors).fired = c.fired
    unfold setLocalMonitors
    split <;> rfl

/-- Only a key event changes which keys have fired. -/
theorem react_fired (c : Core) {input : CoreInput}
    (hkey : ∀ k nowMs, input ≠ .capture (.key k) nowMs) : (c.react input).1.fired = c.fired := by
  cases input with
  | hub ev => exact c.onHubEvent_fired ev
  | vanished name => exact c.clientDisconnected_fired name
  | capture ev nowMs =>
    cases ev with
    | pointer p => exact c.onPointer_fired p nowMs
    | motion dx dy => exact c.onMotion_fired dx dy
    | button b down => rfl
    | wheel dx dy => rfl
    | key k => exact absurd rfl (hkey k nowMs)
    | hotkey => exact c.onHotkey_fired
    | grabFailed => exact c.onGrabFailed_fired

/-- What is forwarded with a client having the input. -/
theorem forward_remote {screen : String} {pos : Point} (h : c.state = .remote screen pos)
    (msg : ServerMsg) : c.forward msg = [.send screen msg] := by
  rw [forward, h]

/-- With a client the modifiers of a rule are let go of there. -/
theorem releaseModifiers_remote {screen : String} {pos : Point} (h : c.state = .remote screen pos)
    (r : Rule) : c.releaseModifiers r.mods
      = (r.releases.map (bareKey .up)).map fun key => .send screen (.key key) := by
  unfold releaseModifiers Rule.releases
  rw [List.map_flatMap, List.map_flatMap]
  refine List.flatMap_congr fun ⟨bit, keys⟩ _ => ?_
  dsimp only
  by_cases hbit : r.mods.contains bit = true
  · rw [if_pos hbit, if_pos hbit, List.map_map]
    simp only [forward_remote h]
    rw [← List.map_eq_flatMap]
    rfl
  · rw [if_neg hbit, if_neg hbit]
    rfl

/-- A key that has fired, let go of or repeating: the action goes in its place. -/
theorem onKey_of_fired {k : KeyEvent} {action : Nat} (hfired : c.fired.get? k.hid = some action) :
    c.onKey k = (if k.action = .up then { c with fired := c.fired.drop k.hid } else c,
      (if k.action = .up then { c with fired := c.fired.drop k.hid } else c).forward
        (asAction action k.action)) := by
  unfold onKey
  rw [hfired]

/-- A key that has not fired, and goes down on a rule's combination. -/
theorem onKey_fires {k : KeyEvent} {r : Rule} (hfired : c.fired.get? k.hid = none)
    (hremote : c.activeRemote.isSome = true) (hdown : k.action = .down) (hr : c.ruleFor k = some r) :
    c.onKey k = ({ c with fired := c.fired.put k.hid r.action },
      c.releaseModifiers r.mods ++ c.forward (asAction r.action .down)) := by
  have hrule : (if k.action = .down ∧ c.activeRemote.isSome then
      c.keyRules.find? fun r => r.matches k.hid k.mods else none) = some r := by
    rw [if_pos ⟨hdown, hremote⟩]
    exact hr
  unfold onKey
  rw [hfired]
  dsimp only
  rw [hrule]

/-- Any other key event is forwarded as it is. -/
theorem onKey_plain {k : KeyEvent} (hfired : c.fired.get? k.hid = none)
    (hplain : k.action = .down → c.ruleFor k = none) : c.onKey k = (c, c.forward (.key k)) := by
  have hrule : (if k.action = .down ∧ c.activeRemote.isSome then
      c.keyRules.find? fun r => r.matches k.hid k.mods else none) = none := by
    split
    · next h => exact hplain h.1
    · rfl
  unfold onKey
  rw [hfired]
  dsimp only
  rw [hrule]

/-- A key that is held, or let go of, changes nothing for the other keys. -/
theorem onKey_fired_held (c : Core) {k : KeyEvent} (hheld : k.action ≠ .down) {hid : Nat}
    (hother : k.action = .up → hid ≠ k.hid) : (c.onKey k).1.fired.get? hid = c.fired.get? hid := by
  cases hfired : c.fired.get? k.hid with
  | some action =>
    rw [onKey_of_fired hfired]
    dsimp only
    split
    · next hup =>
      dsimp only
      rw [Dict.get?_drop, if_neg (hother hup)]
    · rfl
  | none => rw [onKey_plain hfired fun hdown => absurd hdown hheld]

end Core

/-! ## The invariant

What the run has noted of a press is what the core has in its table, so every later event of the
key goes by what the press decided. -/

/-- What the run has noted of a press is what the core knows of it. -/
def KeyInv (s : KeyRun) : Prop :=
  ∀ hid press, s.pressed.get? hid = some press → s.core.fired.get? hid = press

/-- The step that matters: a key event in the span that is going on. -/
theorem KeyInv.key {s : KeyRun} (hinv : KeyInv s) {k : KeyEvent}
    (hremote : s.core.activeRemote.isSome = true)
    (hfirst : k.action = .down → s.core.fired.get? k.hid = none) :
    KeyInv ⟨(s.core.onKey k).1, s.note k⟩ := by
  intro hid press hpress
  -- by the kind of event: what is noted of the key is what its entry among the fired ones says
  cases ha : k.action with
  | down =>
    have hfired := hfirst ha
    simp only [KeyRun.note, ha, Dict.get?_put] at hpress
    cases hr : s.core.ruleFor k with
    | some r =>
      rw [hr] at hpress
      show (s.core.onKey k).1.fired.get? hid = press
      rw [Core.onKey_fires hfired hremote ha hr]
      simp only [Dict.get?_put]
      split at hpress
      · next hsame => rw [if_pos hsame]; exact Option.some.inj hpress
      · next hother => rw [if_neg hother]; exact hinv hid press hpress
    | none =>
      rw [hr] at hpress
      show (s.core.onKey k).1.fired.get? hid = press
      rw [Core.onKey_plain hfired fun _ => hr]
      split at hpress
      · next hsame => rw [hsame, hfired]; exact Option.some.inj hpress
      · exact hinv hid press hpress
  -- the key that goes up is noted no more, and has fired no more
  | up =>
    simp only [KeyRun.note, ha, Dict.get?_drop] at hpress
    split at hpress
    · cases hpress
    · next hother =>
      have hkept := s.core.onKey_fired_held (by rw [ha]; decide) fun _ => hother
      exact hkept.trans (hinv hid press hpress)
  | «repeat» n =>
    simp only [KeyRun.note, ha] at hpress
    have hkept : (s.core.onKey k).1.fired.get? hid = s.core.fired.get? hid :=
      s.core.onKey_fired_held (by rw [ha]; nofun) fun hup => by rw [ha] at hup; cases hup
    exact hkept.trans (hinv hid press hpress)

/-- A key that is held goes on as it went down. -/
theorem KeyInv.held {s : KeyRun} (hinv : KeyInv s) {screen : String} {pos : Point}
    (hremote : s.core.state = .remote screen pos) {k : KeyEvent} (hheld : k.action ≠ .down)
    {keys : List KeyEvent} (howed : s.owed k = some keys) :
    (s.core.onKey k).2 = keys.map fun key => .send screen (.key key) := by
  rw [s.owed_held hheld] at howed
  cases hp : s.pressed.get? k.hid with
  | none => rw [hp] at howed; cases howed
  | some press =>
    have hfired := hinv k.hid press hp
    rw [hp] at howed
    cases press with
    | some action =>
      obtain rfl := Option.some.inj howed
      rw [Core.onKey_of_fired hfired]
      split
      · exact Core.forward_remote (c := { s.core with fired := _ }) hremote _
      · exact Core.forward_remote hremote _
    | none =>
      obtain rfl := Option.some.inj howed
      rw [Core.onKey_plain hfired fun hdown => absurd hdown hheld]
      exact Core.forward_remote hremote _

/-- A step in which no fired key goes down again keeps the account of what was pressed. -/
theorem keyInv_step {s s' : KeyRun} {input : CoreInput} (hinv : KeyInv s) (hok : LetGoFirst s input)
    (hs : s.step input = some s') : KeyInv s' := by
  have hquiet : ∀ core : Core, core.fired = s.core.fired → KeyInv { s with core := core } := by
    intro core hfired hid press hpress
    show core.fired.get? hid = press
    rw [hfired]
    exact hinv hid press hpress
  unfold KeyRun.step at hs
  dsimp only at hs
  split at hs
  · -- a span ends: nothing is noted
    obtain rfl := Option.some.inj hs
    intro hid press hpress
    simp at hpress
  · next hsame =>
    split at hs
    · next k nowMs =>
      obtain rfl := Option.some.inj hs
      -- a key event never moves the input, so the span is that of a client
      have hactive : (s.core.onKey k).1.activeRemote = s.core.activeRemote := by
        unfold Core.activeRemote
        rw [s.core.onKey_state k]
      have hremote : s.core.activeRemote.isSome = true := by
        rw [← hactive]
        exact Option.isSome_iff_ne_none.mpr fun h => hsame (.inl h)
      exact hinv.key hremote fun hdown => hok hdown hremote
    · next hkey =>
      obtain rfl := Option.some.inj hs
      exact hquiet _ (s.core.react_fired fun k nowMs h => hkey k nowMs h)

/-- **So it is kept in every state reached.** -/
theorem keyInv_reach {s : KeyRun} (hs : keyRuns.Reach LetGoFirst s) : KeyInv s := by
  refine hs.invariant ?_ fun s input s' _ hinv hok hl => keyInv_step hinv hok hl
  rintro s ⟨core, -, rfl⟩ hid press hpress
  simp at hpress

/-- **The client gets what a key event owes it**, in every run in which a key whose press fired
a rule is let go of before it is pressed for a client again. -/
theorem special_keys {s : KeyRun} (hs : keyRuns.Reach LetGoFirst s) {screen : String} {pos : Point}
    (hremote : s.core.state = .remote screen pos) (k : KeyEvent) (nowMs : Nat)
    (hok : LetGoFirst s (.capture (.key k) nowMs)) (keys : List KeyEvent)
    (howed : s.owed k = some keys) :
    (s.core.react (.capture (.key k) nowMs)).2 = keys.map fun key => .send screen (.key key) := by
  have hinv := keyInv_reach hs
  have hactive : s.core.activeRemote.isSome = true := by
    rw [Core.activeRemote_remote hremote]
    rfl
  show (s.core.onKey k).2 = _
  cases ha : k.action with
  -- a press: a rule fires, or the key is passed on
  | down =>
    have hfired := hok ha hactive
    simp only [KeyRun.owed, ha] at howed
    cases hr : s.core.ruleFor k with
    | some r =>
      simp only [hr, Option.some.injEq] at howed
      rw [Core.onKey_fires hfired hactive ha hr, ← howed, List.map_append,
        ← Core.releaseModifiers_remote hremote, Core.forward_remote hremote]
      rfl
    | none =>
      simp only [hr, Option.some.injEq] at howed
      rw [Core.onKey_plain hfired fun _ => hr, ← howed]
      exact Core.forward_remote hremote _
  -- a release or a repeat goes by what the press has left
  | up =>
    exact hinv.held hremote (by rw [ha]; decide) howed
  | «repeat» n =>
    exact hinv.held hremote (by rw [ha]; exact nofun) howed

/-! ## Control and C, for less brightness -/

/-- `ctrl+c = "brightness_down"`. -/
def controlC : Rule := ⟨.CONTROL, 0x06, Consumer.BRIGHTNESS_DOWN⟩

example : Rule.parse "ctrl+c" "brightness_down" = .ok controlC := by decide

/-- The two screens, with a rule; "b" connected and entered. -/
def ruledRun : KeyRun := { core := Core.twoScreens.withKeyRules [controlC] }

/-- The run that begins with one rule is a start. -/
theorem ruledRun_init : keyRuns.init ruledRun :=
  ⟨_, ⟨_, _, _, _, _, _, _, rfl⟩, rfl⟩

def pressC (mods : ModMask) : CoreInput := .capture (.key ⟨0x06, some 'c', mods, .down⟩) 0

def enterB : List CoreInput := [.hub (.connected "b" [⟨0, 0, 1280, 720⟩]), .capture .hotkey 0]

/-- Both Control keys are let go of, then the brightness key goes down; it goes up with the C key. -/
theorem special_keys_copy : ∃ s, keyRuns.Reach LetGoFirst s
    ∧ (s.core.react (pressC .CONTROL)).2 = [.send "b" (.key (bareKey .up 0xE0)),
        .send "b" (.key (bareKey .up 0xE4)), .send "b" (.key (bareKey .down Consumer.BRIGHTNESS_DOWN))] := by
  have hrun : (keyRuns.exec LetGoFirst ruledRun enterB).isSome = true := by decide +kernel
  obtain ⟨s, hs⟩ := Option.isSome_iff_exists.mp hrun
  have hend : (keyRuns.exec LetGoFirst ruledRun enterB).all (fun s =>
      decide (s.core.state = .remote "b" ⟨640, 360⟩)
        && decide (s.owed ⟨0x06, some 'c', .CONTROL, .down⟩
          = some [bareKey .up 0xE0, bareKey .up 0xE4, bareKey .down Consumer.BRIGHTNESS_DOWN])
        && decide (LetGoFirst s (pressC .CONTROL))) = true := by decide +kernel
  rw [hs, Option.all_some, Bool.and_eq_true, Bool.and_eq_true] at hend
  obtain ⟨⟨hremote, howed⟩, hok⟩ := hend
  exact ⟨s, Lts.reach_of_exec ruledRun_init hs,
    special_keys (Lts.reach_of_exec ruledRun_init hs) (of_decide_eq_true hremote) _ 0
      (of_decide_eq_true hok) _ (of_decide_eq_true howed)⟩

/-- Control and C go down on "b", and the hotkey brings the input home before C is let go of.
With "b" entered again, C alone goes down, and "b" gets the brightness key. -/
theorem fired_key_outlives_span : ¬ ∀ s, keyRuns.Reachable s → ∀ screen pos k nowMs keys,
    s.core.state = .remote screen pos → s.owed k = some keys →
      (s.core.react (.capture (.key k) nowMs)).2
        = keys.map fun key => .send screen (.key key) := by
  intro hall
  -- the rule fires, and the cursor goes home and back while the key is down
  let labels := enterB ++ [pressC .CONTROL, .capture .hotkey 0, .capture .hotkey 0]
  have hrun : (keyRuns.run ruledRun labels).isSome = true := by decide +kernel
  obtain ⟨s, hs⟩ := Option.isSome_iff_exists.mp hrun
  have hend : (keyRuns.run ruledRun labels).all (fun s =>
      decide (s.core.state = .remote "b" ⟨640, 360⟩)
        && decide (s.owed ⟨0x06, some 'c', .empty, .down⟩ = some [⟨0x06, some 'c', .empty, .down⟩])
        && decide ((s.core.react (pressC .empty)).2 = [.send "b" (.key (bareKey .down Consumer.BRIGHTNESS_DOWN))]))
      = true := by decide +kernel
  rw [hs, Option.all_some, Bool.and_eq_true, Bool.and_eq_true] at hend
  obtain ⟨⟨hremote, howed⟩, hacts⟩ := hend
  have hsent : (s.core.react (pressC .empty)).2 = _ :=
    hall s (Lts.reachable_of_run ruledRun_init hs) "b" ⟨640, 360⟩ _ 0 _
      (of_decide_eq_true hremote) (of_decide_eq_true howed)
  rw [of_decide_eq_true hacts] at hsent
  revert hsent
  decide

end GeserDesk
