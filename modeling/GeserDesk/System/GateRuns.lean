import GeserDesk.Lib.Transition
import GeserDesk.Server.Bounce

/-!
# The switch gates over whole runs

A cursor at an edge has to pass the double tap and the delay, which look back at earlier
samples. The run keeps those samples, since the last time the input went to a client or came
home, as what can be seen of the cursor in them.

* **`switch_gates`**: a switch was tapped for twice, waited for and near a corner as the policy
  asks; and both gates start afresh after it. This is so in every run that keeps out of what
  the gates confuse (`Plain`).
* **`gates_count_one_touch_twice`**: two samples of one touch count as a double tap, and a delay
  goes on while the cursor is on no monitor.
-/

namespace GeserDesk

/-! ## One evaluation

What evaluating the gates at a sample can give. -/

namespace SwitchState

/-- The edge was tapped at most `within` ago. -/
def SecondTap (s : SwitchState) (edge : Edge) (nowMs within : Nat) : Prop :=
  match s.lastTap with
  | some (e, t) => e = edge ∧ nowMs - t ≤ within
  | none => False

instance (s : SwitchState) (edge : Edge) (nowMs within : Nat) :
    Decidable (s.SecondTap edge nowMs within) := by
  unfold SecondTap
  split <;> infer_instance

/-- The tap is noted where taps count. -/
def tapped (s : SwitchState) (policy : SwitchPolicy) (nowMs : Nat) (edge : Edge) : SwitchState :=
  if 0 < policy.doubleTapMs then { s with lastTap := some (edge, nowMs) } else s

/-- What the gates can come to for a cursor beside a machine. -/
inductive Evaluated (s : SwitchState) (policy : SwitchPolicy) (nowMs : Nat) (edge : Edge) :
    Bool → SwitchState → Decision → Prop where
  | outside : Evaluated s policy nowMs edge false s.leftEdge .blocked
  | locked (hlocked : s.locked = true) : Evaluated s policy nowMs edge true s.leftEdge .blocked
  | firstTap (hgate : 0 < policy.doubleTapMs) :
      Evaluated s policy nowMs edge true (s.tapped policy nowMs edge) .wait
  | starts (htap : 0 < policy.doubleTapMs → s.SecondTap edge nowMs policy.doubleTapMs)
      (hdelay : 0 < policy.delayMs) (hdwell : ∀ t, s.dwell ≠ some (edge, t)) :
      Evaluated s policy nowMs edge true
        { s.tapped policy nowMs edge with dwell := some (edge, nowMs) } .wait
  | rests (hdelay : 0 < policy.delayMs) {started : Nat} (hdwell : s.dwell = some (edge, started)) :
      Evaluated s policy nowMs edge true (s.tapped policy nowMs edge) .wait
  | opens (htap : 0 < policy.doubleTapMs → s.SecondTap edge nowMs policy.doubleTapMs)
      (hdelay : 0 < policy.delayMs →
        ∃ started, s.dwell = some (edge, started) ∧ started + policy.delayMs ≤ nowMs) :
      Evaluated s policy nowMs edge true s.switched .switch

/-- Past the tap, the dwell decides: the state that is left and the answer are those of an
evaluation with the tap made. -/
theorem evaluateDwell_evaluated {s : SwitchState} {policy : SwitchPolicy} {nowMs : Nat}
    {edge : Edge} (htap : 0 < policy.doubleTapMs → s.SecondTap edge nowMs policy.doubleTapMs) :
    Evaluated s policy nowMs edge true ((s.tapped policy nowMs edge).evaluateDwell policy nowMs edge).1
      ((s.tapped policy nowMs edge).evaluateDwell policy nowMs edge).2 := by
  have hdwell : (s.tapped policy nowMs edge).dwell = s.dwell := by unfold tapped; split <;> rfl
  have hswitched : (s.tapped policy nowMs edge).switched = s.switched := by
    unfold tapped
    split <;> rfl
  unfold evaluateDwell
  rw [hswitched, hdwell]
  by_cases hdelay : 0 < policy.delayMs
  · rw [if_pos hdelay]
    cases hd : s.dwell with
    | none => exact .starts htap hdelay fun t h => by rw [hd] at h; cases h
    | some d =>
      obtain ⟨e, started⟩ := d
      dsimp only
      by_cases he : e = edge
      · subst he
        rw [if_pos rfl]
        split
        · next hover => exact .opens htap fun _ => ⟨started, hd, by omega⟩
        · exact .rests hdelay hd
      · rw [if_neg he]
        refine .starts htap hdelay fun t h => he ?_
        rw [hd, Option.some.injEq, Prod.mk.injEq] at h
        exact h.1
  · rw [if_neg hdelay]
    exact .opens htap fun h => absurd h hdelay

/-- **The one place where the gates are taken apart.** -/
theorem evaluate_evaluated (s : SwitchState) (policy : SwitchPolicy) (nowMs : Nat) (edge : Edge)
    (inCorner : Bool) : Evaluated s policy nowMs edge inCorner
      (s.evaluate policy nowMs edge true inCorner).1
      (s.evaluate policy nowMs edge true inCorner).2 := by
  cases inCorner with
  | false => exact .outside
  | true =>
    unfold evaluate
    rw [if_neg (by decide)]
    split
    · next hlocked => exact .locked (Bool.and_eq_true_iff.mp hlocked).1
    split
    · next hgate =>
      have htapped : s.tapped policy nowMs edge = { s with lastTap := some (edge, nowMs) } :=
        if_pos hgate
      dsimp only
      rw [← htapped]
      split
      · next e t hlast =>
        split
        · exact .firstTap hgate
        · next hsecond =>
          refine evaluateDwell_evaluated fun _ => ?_
          simpa [SecondTap, hlast] using hsecond
      · exact .firstTap hgate
    · next hgate =>
      have htapped : s.tapped policy nowMs edge = s := if_neg hgate
      have htap : 0 < policy.doubleTapMs → s.SecondTap edge nowMs policy.doubleTapMs :=
        fun hpos => absurd hpos hgate
      have h := evaluateDwell_evaluated htap
      rw [htapped] at h
      exact h

end SwitchState

/-! ## What the samples show

The samples seen, with their times and where they were. -/

/-- What a sample of the pointer shows of the cursor. -/
structure Sample where
  at_ : Nat
  /-- The edges whose band the cursor is in. -/
  bands : List Edge := []
  /-- The edge it could cross: in its band, beside a machine. -/
  beside : Option Edge := none
  /-- It is inside the corner window of that edge. -/
  inWindow : Bool := false
deriving DecidableEq, Repr

/-- It touches the edge, where crossing is allowed. -/
def Sample.Taps (x : Sample) (edge : Edge) : Prop := x.beside = some edge ∧ x.inWindow = true

instance (x : Sample) (edge : Edge) : Decidable (x.Taps edge) := inferInstanceAs (Decidable (_ ∧ _))

/-- Where the cursor is seen at `p`, on the monitor it is on. -/
def Core.sample (c : Core) (p : Point) (nowMs : Nat) : Sample :=
  match c.localMonitors.find? fun m => m.contains p with
  | none => { at_ := nowMs }
  | some m =>
    let bands := Edge.all.filter fun edge => atEdge m p edge (max c.policy.jumpZone 1)
    match c.crossing m p (max c.policy.jumpZone 1) with
    | none => { at_ := nowMs, bands := bands }
    | some (edge, _, _) =>
      { at_ := nowMs, bands := bands, beside := some edge
        inWindow := nearCorner m p edge c.policy.cornerSize }

/-- The core, the clock, and the samples taken at home since the input last went to a client or
came back, the newest first. -/
structure GateRun where
  core : Core
  clock : Nat := 0
  samples : List Sample := []

namespace GateRun

/-- Events come in the order of their times. -/
def step (s : GateRun) (input : CoreInput) : Option GateRun :=
  let core := (s.core.react input).1
  let atHome := s.core.activeRemote = none ∧ core.activeRemote = none
  match input with
  | .capture (.pointer p) nowMs =>
    if nowMs < s.clock then none
    else some ⟨core, nowMs, if atHome then s.core.sample p nowMs :: s.samples else []⟩
  | .capture _ nowMs =>
    if nowMs < s.clock then none else some ⟨core, nowMs, if atHome then s.samples else []⟩
  | .hub _ | .vanished _ => some ⟨core, s.clock, if atHome then s.samples else []⟩

/-- Since the last tap of the edge, the cursor was seen away from it. -/
def AwaySinceTap (s : GateRun) (edge : Edge) : Prop :=
  ∃ x ∈ s.samples.takeWhile fun x => !decide (x.Taps edge), edge ∉ x.bands

instance (s : GateRun) (edge : Edge) : Decidable (s.AwaySinceTap edge) :=
  inferInstanceAs (Decidable (∃ x ∈ _, _))

end GateRun

def gateRuns : Lts GateRun CoreInput where
  init s := ∃ core : Core, core.IsNew ∧ s = { core := core }
  step := GateRun.step

/-- The sample is one the gates do not confuse. While a delay is running the cursor stays on the
monitors and, with the double tap on, taps no other edge; and what passes for a second tap, with
no delay running, comes after the cursor was seen away from the edge. -/
def Plain (s : GateRun) : CoreInput → Prop
  | .capture (.pointer p) nowMs =>
    s.core.activeRemote = none →
      ((s.core.localMonitors.find? fun m => m.contains p) = none → s.core.switch.dwell = none)
      ∧ (0 < s.core.policy.doubleTapMs →
        match (s.core.sample p nowMs).beside with
        | none => True
        | some edge => (s.core.sample p nowMs).inWindow = true →
          match s.core.switch.dwell with
          | some (e, _) => e = edge
          | none => s.core.switch.SecondTap edge nowMs s.core.policy.doubleTapMs →
            s.AwaySinceTap edge)
  | _ => True

instance (s : GateRun) (input : CoreInput) : Decidable (Plain s input) := by
  unfold Plain
  split
  · refine @instDecidableForall _ _ _ (@instDecidableAnd _ _ inferInstance ?_)
    refine @instDecidableForall _ _ _ ?_
    split
    · infer_instance
    · refine @instDecidableForall _ _ _ ?_
      split <;> infer_instance
  · infer_instance

/-! ## The law

A switch across an edge has to be what the policy asks for: a double tap, a wait, a place near a
corner, whichever of them are on. -/

/-- Within `n` pixels of an end of the edge. -/
def Rect.NearEnd (m : Rect) (p : Point) (n : Int) : Edge → Prop
  | .left | .right => p.y - m.top < n ∨ m.bottom - 1 - p.y < n
  | .top | .bottom => p.x - m.left < n ∨ m.right - 1 - p.x < n

namespace GateRun

/-- The edge was tapped, the cursor was then seen away from it, and it was tapped again in time;
since then the cursor has been there. `all` are the samples up to now, the newest first. -/
def TappedTwice (all : List Sample) (edge : Edge) (within : Nat) : Prop :=
  ∃ since second between away before first old,
    all = since ++ second :: between ++ away :: before ++ first :: old
      ∧ first.Taps edge ∧ edge ∉ away.bands
      ∧ second.at_ ≤ first.at_ + within ∧ ∀ x ∈ since ++ [second], x.Taps edge

/-- The cursor has been there for that long. -/
def Waited (all : List Sample) (edge : Edge) (delay nowMs : Nat) : Prop :=
  ∃ since first old, all = since ++ first :: old ∧ first.at_ + delay ≤ nowMs
    ∧ ∀ x ∈ since ++ [first], x.Taps edge

/-- The switch across `edge` for a sample at `p` is what the policy asks for. -/
structure Gated (s : GateRun) (p : Point) (nowMs : Nat) (edge : Edge) : Prop where
  beside : (s.core.sample p nowMs).beside = some edge
  tapped : 0 < s.core.policy.doubleTapMs →
    TappedTwice (s.core.sample p nowMs :: s.samples) edge s.core.policy.doubleTapMs
  waited : 0 < s.core.policy.delayMs →
    Waited (s.core.sample p nowMs :: s.samples) edge s.core.policy.delayMs nowMs
  cornered : 0 < s.core.policy.cornerSize →
    ∃ m ∈ s.core.localMonitors, m.contains p = true ∧ m.NearEnd p s.core.policy.cornerSize edge

end GateRun

/-! ## What the gates remember

What the gates store is what the samples so far show. -/

/-- The gates remember samples: the tap is the last one of that edge, and the delay runs since
the sample it started with, which was itself a second tap where that is asked for. -/
structure Remembers (policy : SwitchPolicy) (switch : SwitchState) (samples : List Sample) :
    Prop where
  unlocked : switch.locked = false
  off : policy.doubleTapMs = 0 → switch.lastTap = none
  lastTap : ∀ edge t, switch.lastTap = some (edge, t) → ∃ since x old,
    samples = since ++ x :: old ∧ x.at_ = t ∧ x.Taps edge ∧ ∀ y ∈ since, ¬ y.Taps edge
  dwell : ∀ edge t, switch.dwell = some (edge, t) → 0 < policy.delayMs ∧ ∃ since first old,
    samples = since ++ first :: old ∧ first.at_ = t ∧ (∀ x ∈ since ++ [first], x.Taps edge)
      ∧ (0 < policy.doubleTapMs → ∃ between away before tap older,
        old = between ++ away :: before ++ tap :: older ∧ tap.Taps edge ∧ edge ∉ away.bands
          ∧ first.at_ ≤ tap.at_ + policy.doubleTapMs)

namespace Remembers

variable {policy : SwitchPolicy} {switch : SwitchState} {samples : List Sample}

/-- With both gates fresh there is nothing to remember. -/
theorem switched (h : switch.locked = false) (samples : List Sample) :
    Remembers policy switch.switched samples :=
  ⟨h, fun _ => rfl, nofun, nofun⟩

/-- A sample that taps nothing, with no delay running. -/
theorem aside (h : Remembers policy switch samples) {x : Sample} (hx : ∀ edge, ¬ x.Taps edge)
    (hdwell : switch.dwell = none) : Remembers policy switch (x :: samples) where
  unlocked := h.unlocked
  off := h.off
  lastTap edge t ht := by
    obtain ⟨since, y, old, hsamples, hat, htaps, hsince⟩ := h.lastTap edge t ht
    refine ⟨x :: since, y, old, by rw [hsamples]; rfl, hat, htaps, fun z hz => ?_⟩
    rcases List.mem_cons.mp hz with rfl | hz
    · exact hx edge
    · exact hsince z hz
  dwell edge t ht := by
    rw [hdwell] at ht
    cases ht

/-- Leaving the edge forgets the dwell and remembers the tap. -/
theorem leftEdge (h : Remembers policy switch samples) :
    Remembers policy switch.leftEdge samples :=
  ⟨h.unlocked, h.off, h.lastTap, nofun⟩

/-- The tap after a sample that taps the edge. -/
theorem lastTap_tapped (h : Remembers policy switch samples) {x : Sample} {edge : Edge}
    (hx : x.Taps edge) (e : Edge) (t : Nat)
    (ht : (switch.tapped policy x.at_ edge).lastTap = some (e, t)) : ∃ since y old,
      x :: samples = since ++ y :: old ∧ y.at_ = t ∧ y.Taps e ∧ ∀ z ∈ since, ¬ z.Taps e := by
  unfold SwitchState.tapped at ht
  split at ht
  · rw [Option.some.injEq, Prod.mk.injEq] at ht
    obtain ⟨rfl, rfl⟩ := ht
    exact ⟨[], x, samples, rfl, rfl, hx, nofun⟩
  · next hgate =>
    rw [h.off (by omega)] at ht
    cases ht

/-- With the double tap turned off there is no tap to remember. -/
theorem off_tapped (h : Remembers policy switch samples) (nowMs : Nat) (edge : Edge)
    (hoff : policy.doubleTapMs = 0) : (switch.tapped policy nowMs edge).lastTap = none := by
  unfold SwitchState.tapped
  rw [if_neg (by omega)]
  exact h.off hoff

/-- A sample that taps the edge the delay runs at, if one runs. -/
theorem taps (h : Remembers policy switch samples) {x : Sample} {edge : Edge} (hx : x.Taps edge)
    (hdwell : ∀ e t, switch.dwell = some (e, t) → e = edge) :
    Remembers policy (switch.tapped policy x.at_ edge) (x :: samples) where
  unlocked := by unfold SwitchState.tapped; split <;> exact h.unlocked
  off := h.off_tapped x.at_ edge
  lastTap := h.lastTap_tapped hx
  dwell e t ht := by
    have hold : switch.dwell = some (e, t) := by
      unfold SwitchState.tapped at ht
      split at ht <;> exact ht
    obtain rfl := hdwell e t hold
    obtain ⟨hdelay, since, first, old, hsamples, hat, hall, hpair⟩ := h.dwell e t hold
    refine ⟨hdelay, x :: since, first, old, by rw [hsamples]; rfl, hat, fun y hy => ?_, hpair⟩
    rcases List.mem_cons.mp hy with rfl | hy
    · exact hx
    · exact hall y hy

/-- The tap that a second one goes with, and where the cursor was seen away in between. -/
theorem first_tap (h : Remembers policy switch samples) {edge : Edge} {nowMs within : Nat}
    (htap : switch.SecondTap edge nowMs within)
    (haway : ∃ x ∈ samples.takeWhile fun x => !decide (x.Taps edge), edge ∉ x.bands) :
    ∃ between away before tap older, samples = between ++ away :: before ++ tap :: older
      ∧ tap.Taps edge ∧ edge ∉ away.bands ∧ nowMs ≤ tap.at_ + within := by
  unfold SwitchState.SecondTap at htap
  split at htap
  · next e t hlast =>
    obtain ⟨rfl, hwithin⟩ := htap
    obtain ⟨since, tap, older, hsamples, hat, htaps, hsince⟩ := h.lastTap e t hlast
    -- the samples since the tap are those up to the first one that taps the edge
    have htake : (samples.takeWhile fun x => !decide (x.Taps e)) = since := by
      rw [hsamples, List.takeWhile_append_of_pos fun y hy => by simpa using hsince y hy,
        List.takeWhile_cons_of_neg (by simpa using htaps), List.append_nil]
    rw [htake] at haway
    obtain ⟨away, hmem, hoff⟩ := haway
    obtain ⟨between, before, rfl⟩ := List.append_of_mem hmem
    exact ⟨between, away, before, tap, older, hsamples, htaps, hoff, by omega⟩
  · exact htap.elim

/-- A sample the delay starts with. -/
theorem starts (h : Remembers policy switch samples) {x : Sample} {edge : Edge} (hx : x.Taps edge)
    (hdelay : 0 < policy.delayMs)
    (htap : 0 < policy.doubleTapMs → switch.SecondTap edge x.at_ policy.doubleTapMs)
    (haway : 0 < policy.doubleTapMs →
      ∃ y ∈ samples.takeWhile fun y => !decide (y.Taps edge), edge ∉ y.bands) :
    Remembers policy { switch.tapped policy x.at_ edge with dwell := some (edge, x.at_) }
      (x :: samples) where
  unlocked := by unfold SwitchState.tapped; split <;> exact h.unlocked
  off := h.off_tapped x.at_ edge
  lastTap := h.lastTap_tapped hx
  dwell e t ht := by
    rw [Option.some.injEq, Prod.mk.injEq] at ht
    obtain ⟨rfl, rfl⟩ := ht
    refine ⟨hdelay, [], x, samples, rfl, rfl, fun y hy => ?_, fun hgate => ?_⟩
    · rw [List.mem_singleton.mp hy]
      exact hx
    · exact h.first_tap (htap hgate) (haway hgate)

end Remembers

/-! ## Reactions and the gates

A reaction opens a gate, resets them, or leaves them alone. -/

namespace Core

variable {c c' : Core} {p : Point} {nowMs : Nat} {m : Rect}

/-- A sample has the time it was taken at. -/
theorem at_sample (c : Core) (p : Point) (nowMs : Nat) : (c.sample p nowMs).at_ = nowMs := by
  unfold sample
  split
  · rfl
  · dsimp only
    split <;> rfl

/-- Off every monitor there is nothing beside the cursor. -/
theorem sample_off (hfind : (c.localMonitors.find? fun m => m.contains p) = none) :
    (c.sample p nowMs).beside = none := by
  unfold sample
  rw [hfind]

/-- In the middle of a monitor there is nothing beside the cursor. -/
theorem sample_inland (hfind : (c.localMonitors.find? fun m => m.contains p) = some m)
    (hcross : c.crossing m p (max c.policy.jumpZone 1) = none) :
    (c.sample p nowMs).beside = none := by
  unfold sample
  rw [hfind]
  dsimp only
  rw [hcross]

/-- A cursor that could cross is beside the edge it would cross, in the corner or not as the policy
says. -/
theorem sample_hit {edge : Edge} {target : String} {q : Point}
    (hfind : (c.localMonitors.find? fun m => m.contains p) = some m)
    (hcross : c.crossing m p (max c.policy.jumpZone 1) = some (edge, target, q)) :
    (c.sample p nowMs).beside = some edge
      ∧ (c.sample p nowMs).inWindow = nearCorner m p edge c.policy.cornerSize := by
  unfold sample
  rw [hfind]
  dsimp only
  rw [hcross]
  exact ⟨rfl, rfl⟩

/-- A reaction leaves the gates, the policy and the holder of the input as they were, or it has
reset the gates. -/
def GatesKept (c c' : Core) : Prop :=
  c'.policy = c.policy ∧ ((c'.switch = c.switch ∧ c'.activeRemote = c.activeRemote ∧ c'.seq = c.seq)
    ∨ c'.switch = c.switch.switched)

/-- A step that leaves the gates alone keeps them. -/
theorem GatesKept.same (hpolicy : c'.policy = c.policy) (hswitch : c'.switch = c.switch)
    (hactive : c'.activeRemote = c.activeRemote) (hseq : c'.seq = c.seq) : GatesKept c c' :=
  ⟨hpolicy, .inl ⟨hswitch, hactive, hseq⟩⟩

/-- A step that resets the gates keeps them as `GatesKept` has it. -/
theorem GatesKept.reset (hpolicy : c'.policy = c.policy) (hswitch : c'.switch = c.switch.switched) :
    GatesKept c c' :=
  ⟨hpolicy, .inr hswitch⟩

/-- Doing nothing keeps the gates. -/
theorem GatesKept.refl (c : Core) : GatesKept c c := .same rfl rfl rfl rfl

/-- The hotkey resets the gates or has nowhere to go. -/
theorem onHotkey_gates (c : Core) : GatesKept c c.onHotkey.1 := by
  unfold onHotkey
  split
  · exact .reset rfl rfl
  · split
    · exact .reset rfl rfl
    · exact .refl _

/-- A grab that failed resets the gates. -/
theorem onGrabFailed_gates (c : Core) : GatesKept c c.onGrabFailed.1 := by
  unfold onGrabFailed
  split
  · exact .reset rfl rfl
  · exact .refl _

/-- A motion resets the gates when it comes home. -/
theorem onMotion_gates (c : Core) (dx dy : Int) : GatesKept c (c.onMotion dx dy).1 := by
  unfold onMotion
  split
  · exact .refl _
  · next screen pos hremote =>
    have hmoves : ∀ at_, GatesKept c (c.moveTo screen at_).1 := fun at_ =>
      .same rfl rfl (activeRemote_remote hremote).symm rfl
    dsimp only
    split
    · exact .refl _
    · split
      · exact hmoves _
      · split
        · unfold crossTo
          split <;> exact .reset rfl rfl
        · exact hmoves _

/-- A key leaves the gates alone. -/
theorem onKey_gates (c : Core) (k : KeyEvent) : GatesKept c (c.onKey k).1 := by
  unfold onKey
  split
  · dsimp only
    split
    · exact .same rfl rfl rfl rfl
    · exact .refl _
  · dsimp only
    generalize (if k.action = .down ∧ c.activeRemote.isSome then
      c.keyRules.find? fun r => r.matches k.hid k.mods else none) = rule
    split
    · exact .refl _
    · exact .same rfl rfl rfl rfl

/-- The end of the active client resets the gates. -/
theorem clientDisconnected_gates (c : Core) (name : String) :
    GatesKept c (c.clientDisconnected name).1 := by
  unfold clientDisconnected
  dsimp only
  split
  · split
    · exact .reset rfl rfl
    · exact .same rfl rfl rfl rfl
  · exact .same rfl rfl rfl rfl

/-- An event of the hub keeps the gates. -/
theorem onHubEvent_gates (c : Core) (ev : HubEvent) : GatesKept c (c.onHubEvent ev).1 := by
  cases ev with
  | disconnected name => exact c.clientDisconnected_gates name
  | connected name monitors => exact .same rfl rfl rfl rfl
  | positions positions => exact .same rfl rfl rfl rfl
  | sizes sizes => exact .same rfl rfl rfl rfl
  | screenAdded name =>
    show GatesKept c (c.addScreen name)
    unfold addScreen
    dsimp only
    split
    · exact .same rfl rfl rfl rfl
    · exact .refl _
  | localMonitors monitors =>
    show GatesKept c (c.setLocalMonitors monitors)
    unfold setLocalMonitors
    split
    · exact .refl _
    · exact .same rfl rfl rfl rfl

/-- Only a sample of the pointer, with the input at home, moves the gates without resetting
them. -/
theorem react_gates (c : Core) {input : CoreInput}
    (hpointer : ∀ p nowMs, input = .capture (.pointer p) nowMs → c.activeRemote ≠ none) :
    GatesKept c (c.react input).1 := by
  cases input with
  | hub ev => exact c.onHubEvent_gates ev
  | vanished name => exact c.clientDisconnected_gates name
  | capture ev nowMs =>
    cases ev with
    | pointer p =>
      have hremote := hpointer p nowMs rfl
      show GatesKept c (c.onPointer p nowMs).1
      cases hs : c.state with
      | local_ => exact absurd (activeRemote_local hs) hremote
      | remote screen pos =>
        rw [onPointer, hs]
        exact .refl _
    | motion dx dy => exact c.onMotion_gates dx dy
    | button b down => exact .refl _
    | wheel dx dy => exact .refl _
    | key k => exact c.onKey_gates k
    | hotkey => exact c.onHotkey_gates
    | grabFailed => exact c.onGrabFailed_gates

end Core

/-! ## The invariant

The gates remember the samples since the input came home. -/

structure GateInv (s : GateRun) : Prop where
  gates : Remembers s.core.policy s.core.switch s.samples
  away : s.core.activeRemote ≠ none → s.samples = []

/-- Any step but a sample at home. -/
theorem GateInv.kept {s : GateRun} (h : GateInv s) {core : Core} (clock : Nat)
    (hgates : s.core.GatesKept core) :
    GateInv ⟨core, clock,
      if s.core.activeRemote = none ∧ core.activeRemote = none then s.samples else []⟩ := by
  obtain ⟨hpolicy, ⟨hswitch, hactive, -⟩ | hreset⟩ := hgates
  · by_cases hhome : s.core.activeRemote = none
    · rw [if_pos ⟨hhome, hactive.trans hhome⟩]
      exact ⟨by rw [hpolicy, hswitch]; exact h.gates, fun hne => absurd (hactive.trans hhome) hne⟩
    -- the input is with a client: there are no samples, before or after
    · rw [if_neg fun hboth => hhome hboth.1]
      refine ⟨?_, fun _ => rfl⟩
      have hempty := h.gates
      rw [h.away hhome] at hempty
      rw [hpolicy, hswitch]
      exact hempty
  · refine ⟨by rw [hreset]; exact .switched h.gates.unlocked _, fun hne => ?_⟩
    rw [if_neg fun hboth => hne hboth.2]

/-- What the condition on a sample comes to for one that taps an edge. -/
theorem Plain.tap {s : GateRun} {p : Point} {nowMs : Nat} {edge : Edge}
    (hplain : Plain s (.capture (.pointer p) nowMs)) (hhome : s.core.activeRemote = none)
    (htaps : (s.core.sample p nowMs).Taps edge) (hgate : 0 < s.core.policy.doubleTapMs) :
    (∀ e t, s.core.switch.dwell = some (e, t) → e = edge)
      ∧ (s.core.switch.dwell = none →
        s.core.switch.SecondTap edge nowMs s.core.policy.doubleTapMs → s.AwaySinceTap edge) := by
  have hcond := (hplain hhome).2 hgate
  rw [htaps.1] at hcond
  have hclear := hcond htaps.2
  cases hd : s.core.switch.dwell with
  | none =>
    rw [hd] at hclear
    exact ⟨nofun, fun _ => hclear⟩
  | some d =>
    rw [hd] at hclear
    exact ⟨fun e t he => by cases he; exact hclear, nofun⟩

/-- A sample at an edge with a machine beyond, held back by the gates. -/
theorem GateInv.held {s : GateRun} (h : GateInv s) {p : Point} {nowMs : Nat} {edge : Edge}
    {inCorner : Bool} {switch : SwitchState} {decision : Decision}
    (hhome : s.core.activeRemote = none) (hplain : Plain s (.capture (.pointer p) nowMs))
    (hbeside : (s.core.sample p nowMs).beside = some edge)
    (hwindow : (s.core.sample p nowMs).inWindow = inCorner)
    (hev : s.core.switch.Evaluated s.core.policy nowMs edge inCorner switch decision)
    (hheld : decision ≠ .switch) :
    Remembers s.core.policy switch (s.core.sample p nowMs :: s.samples) := by
  have hat := s.core.at_sample p nowMs
  cases hev with
  | outside =>
    refine h.gates.leftEdge.aside (fun e htaps => ?_) rfl
    rw [htaps.2] at hwindow
    cases hwindow
  -- no run of the core locks the gates
  | locked hlocked =>
    rw [h.gates.unlocked] at hlocked
    cases hlocked
  | firstTap hgate =>
    have hone := (hplain.tap hhome ⟨hbeside, hwindow⟩ hgate).1
    have htapped := h.gates.taps ⟨hbeside, hwindow⟩ hone
    rw [hat] at htapped
    exact htapped
  | rests hdelay hdwell =>
    have hone : ∀ e t, s.core.switch.dwell = some (e, t) → e = edge := by
      intro e t he
      rw [hdwell, Option.some.injEq, Prod.mk.injEq] at he
      exact he.1.symm
    have htapped := h.gates.taps ⟨hbeside, hwindow⟩ hone
    rw [hat] at htapped
    exact htapped
  | starts htap hdelay hdwell =>
    -- with the double tap on no delay can run at another edge, so none runs
    have hnone : 0 < s.core.policy.doubleTapMs → s.core.switch.dwell = none := by
      intro hgate
      have hone := (hplain.tap hhome ⟨hbeside, hwindow⟩ hgate).1
      cases hd : s.core.switch.dwell with
      | none => rfl
      | some d =>
        obtain ⟨e, t⟩ := d
        obtain rfl := hone e t hd
        exact absurd hd (hdwell t)
    have hstarted := h.gates.starts ⟨hbeside, hwindow⟩ hdelay (by rw [hat]; exact htap)
      fun hgate => (hplain.tap hhome ⟨hbeside, hwindow⟩ hgate).2 (hnone hgate) (htap hgate)
    rw [hat] at hstarted
    exact hstarted
  | opens htap hdelay => exact absurd rfl hheld

/-- A sample with the input at home. -/
theorem GateInv.sampled {s : GateRun} (h : GateInv s) {p : Point} {nowMs : Nat}
    (hhome : s.core.state = .local_) (hplain : Plain s (.capture (.pointer p) nowMs)) :
    GateInv ⟨(s.core.onPointer p nowMs).1, nowMs,
      if s.core.activeRemote = none ∧ (s.core.onPointer p nowMs).1.activeRemote = none then
        s.core.sample p nowMs :: s.samples else []⟩ := by
  have hactive := Core.activeRemote_local hhome
  have hsampled := Core.onPointer_sampled hhome p nowMs
  generalize (s.core.onPointer p nowMs).1 = c', (s.core.onPointer p nowMs).2 = acts at hsampled ⊢
  cases hsampled with
  | off hfind =>
    rw [if_pos ⟨hactive, hactive⟩]
    refine ⟨h.gates.aside (fun e htaps => ?_) ((hplain hactive).1 hfind), fun hne => absurd hactive hne⟩
    have hbeside := htaps.1
    rw [Core.sample_off hfind] at hbeside
    cases hbeside
  | inland hfind hcross =>
    rw [if_pos ⟨hactive, Core.activeRemote_local hhome⟩]
    refine ⟨h.gates.leftEdge.aside (fun e htaps => ?_) rfl,
      fun hne => absurd (Core.activeRemote_local hhome) hne⟩
    have hbeside := htaps.1
    rw [Core.sample_inland hfind hcross] at hbeside
    cases hbeside
  | @held m edge target q switch decision hfind hcross hgates hheld =>
    rw [if_pos ⟨hactive, Core.activeRemote_local hhome⟩]
    have hhit : (s.core.sample p nowMs).beside = some edge
        ∧ (s.core.sample p nowMs).inWindow = nearCorner m p edge s.core.policy.cornerSize :=
      Core.sample_hit hfind hcross
    obtain ⟨hbeside, hwindow⟩ := hhit
    have hev := s.core.switch.evaluate_evaluated s.core.policy nowMs edge
      (nearCorner m p edge s.core.policy.cornerSize)
    rw [hgates] at hev
    exact ⟨h.held hactive hplain hbeside hwindow hev hheld,
      fun hne => absurd (Core.activeRemote_local hhome) hne⟩
  | @crosses m edge target q switch hfind hcross hgates =>
    have hev := s.core.switch.evaluate_evaluated s.core.policy nowMs edge
      (nearCorner m p edge s.core.policy.cornerSize)
    rw [hgates] at hev
    generalize nearCorner m p edge s.core.policy.cornerSize = inCorner at hev
    have hlocked : switch.locked = false := by
      cases hev with
      | opens htap hdelay => exact h.gates.unlocked
    -- the input is gone, and both gates were reset
    rw [if_neg fun hboth => by cases hboth.2]
    exact ⟨.switched hlocked _, fun _ => rfl⟩

/-- A step of a run keeps the samples and the gates in step. -/
theorem gateInv_step {s s' : GateRun} {input : CoreInput} (h : GateInv s) (hplain : Plain s input)
    (hs : s.step input = some s') : GateInv s' := by
  unfold GateRun.step at hs
  dsimp only at hs
  split at hs
  · next p nowMs =>
    split at hs
    · cases hs
    · obtain rfl := Option.some.inj hs
      cases hstate : s.core.state with
      | local_ => exact h.sampled hstate hplain
      | remote screen pos =>
        have hremote : s.core.activeRemote ≠ none := by
          rw [Core.activeRemote_remote hstate]
          exact nofun
        have hgates : s.core.GatesKept (s.core.react (.capture (.pointer p) nowMs)).1 :=
          s.core.react_gates fun _ _ _ => hremote
        have hkept := h.kept nowMs hgates
        rw [if_neg fun hboth => hremote hboth.1] at hkept ⊢
        exact hkept
  · next hother =>
    split at hs
    · cases hs
    · obtain rfl := Option.some.inj hs
      exact h.kept _ (s.core.react_gates fun p nowMs hp => by cases hp; exact absurd rfl (hother _))
  · obtain rfl := Option.some.inj hs
    exact h.kept _ (s.core.react_gates nofun)
  · obtain rfl := Option.some.inj hs
    exact h.kept _ (s.core.react_gates nofun)

/-- **What the gates remember is read off the samples in every state reached.** -/
theorem gateInv_reach {s : GateRun} (hs : gateRuns.Reach Plain s) : GateInv s := by
  refine hs.invariant ?_ fun s input s' _ hinv hok hl => gateInv_step hinv hok hl
  rintro s ⟨core, ⟨layout, policy, name, monitors, positions, sizes, rules, rfl⟩, rfl⟩
  exact ⟨⟨rfl, fun _ => rfl, nofun, nofun⟩, fun _ => rfl⟩

/-! ## The gates

A switch that is made was due by the samples seen since the input came home, and after it the
gates begin anew. -/

/-- The corner window, where there is one, is near an end of the edge. -/
theorem nearEnd_of_nearCorner {m : Rect} {p : Point} {edge : Edge} {cornerSize : Int}
    (h : nearCorner m p edge cornerSize = true) (hsize : 0 < cornerSize) :
    m.NearEnd p cornerSize edge := by
  unfold nearCorner at h
  rw [if_neg (by omega)] at h
  cases edge with
  | left => simpa [Rect.NearEnd] using h
  | right => simpa [Rect.NearEnd] using h
  | top => simpa [Rect.NearEnd] using h
  | bottom => simpa [Rect.NearEnd] using h

/-- What opens the gates is what the policy asks for. -/
theorem GateInv.opens {s : GateRun} (h : GateInv s) {p : Point} {nowMs : Nat}
    (hplain : Plain s (.capture (.pointer p) nowMs)) (hhome : s.core.activeRemote = none)
    {edge : Edge} (htaps : (s.core.sample p nowMs).Taps edge)
    (htap : 0 < s.core.policy.doubleTapMs →
      s.core.switch.SecondTap edge nowMs s.core.policy.doubleTapMs)
    (hdelay : 0 < s.core.policy.delayMs →
      ∃ started, s.core.switch.dwell = some (edge, started) ∧ started + s.core.policy.delayMs ≤ nowMs) :
    (0 < s.core.policy.doubleTapMs → GateRun.TappedTwice (s.core.sample p nowMs :: s.samples) edge
      s.core.policy.doubleTapMs)
    ∧ (0 < s.core.policy.delayMs → GateRun.Waited (s.core.sample p nowMs :: s.samples) edge
      s.core.policy.delayMs nowMs) := by
  have hat := s.core.at_sample p nowMs
  constructor
  · intro hgate
    obtain ⟨hone, hnone⟩ := hplain.tap hhome htaps hgate
    cases hd : s.core.switch.dwell with
    | some d =>
      -- the second tap is the sample the delay started with
      obtain ⟨e, t⟩ := d
      obtain rfl := hone e t hd
      obtain ⟨-, since, second, old, hsamples, -, hall, hpair⟩ := h.gates.dwell e t hd
      obtain ⟨between, away, before, first, older, rfl, hfirst, haway, hwithin⟩ := hpair hgate
      refine ⟨s.core.sample p nowMs :: since, second, between, away, before, first, older, ?_, hfirst,
        haway, hwithin, fun x hx => ?_⟩
      · rw [hsamples]
        simp
      · rcases List.mem_cons.mp hx with rfl | hx
        · exact htaps
        · exact hall x hx
    | none =>
      obtain ⟨between, away, before, first, older, hsamples, hfirst, haway, hwithin⟩ :=
        h.gates.first_tap (htap hgate) (hnone hd (htap hgate))
      refine ⟨[], s.core.sample p nowMs, between, away, before, first, older, ?_, hfirst, haway,
        by omega, fun x hx => ?_⟩
      · rw [hsamples]
        simp
      · rw [List.mem_singleton.mp hx]
        exact htaps
  · intro hpos
    obtain ⟨started, hdwell, hover⟩ := hdelay hpos
    obtain ⟨-, since, first, old, hsamples, hat', hall, -⟩ := h.gates.dwell edge started hdwell
    refine ⟨s.core.sample p nowMs :: since, first, old, by rw [hsamples]; rfl, by omega,
      fun x hx => ?_⟩
    rcases List.mem_cons.mp hx with rfl | hx
    · exact htaps
    · exact hall x hx

/-- A step of the run is a reaction of the core. -/
theorem GateRun.core_of_step {s s' : GateRun} {input : CoreInput} (hs : s.step input = some s') :
    s'.core = (s.core.react input).1 := by
  unfold GateRun.step at hs
  dsimp only at hs
  split at hs
  · split at hs
    · cases hs
    · obtain rfl := Option.some.inj hs
      rfl
  · split at hs
    · cases hs
    · obtain rfl := Option.some.inj hs
      rfl
  · obtain rfl := Option.some.inj hs
    rfl
  · obtain rfl := Option.some.inj hs
    rfl

/-- A core without an active client is at home. -/
theorem Core.local_of_activeRemote {c : Core} (h : c.activeRemote = none) : c.state = .local_ := by
  cases hs : c.state with
  | local_ => rfl
  | remote screen pos =>
    rw [activeRemote_remote hs] at h
    cases h

/-- A sample that takes the input to a client. -/
theorem GateInv.gated {s : GateRun} (h : GateInv s) {p : Point} {nowMs : Nat}
    (hplain : Plain s (.capture (.pointer p) nowMs)) (hhome : s.core.activeRemote = none)
    (haway : (s.core.onPointer p nowMs).1.activeRemote ≠ none) : ∃ edge, s.Gated p nowMs edge := by
  have hlocal := Core.local_of_activeRemote hhome
  have hsampled := Core.onPointer_sampled hlocal p nowMs
  generalize (s.core.onPointer p nowMs).1 = c', (s.core.onPointer p nowMs).2 = acts
    at hsampled haway
  cases hsampled with
  | off hfind => exact absurd hhome haway
  | inland hfind hcross => exact absurd (Core.activeRemote_local hlocal) haway
  | held hfind hcross hgates hheld => exact absurd (Core.activeRemote_local hlocal) haway
  | @crosses m edge target q switch hfind hcross hgates =>
    have hhit : (s.core.sample p nowMs).beside = some edge
        ∧ (s.core.sample p nowMs).inWindow = nearCorner m p edge s.core.policy.cornerSize :=
      Core.sample_hit hfind hcross
    obtain ⟨hbeside, hwindow⟩ := hhit
    have hon : (fun m : Rect => m.contains p) m = true :=
      List.find?_some (p := fun m : Rect => m.contains p) hfind
    have hev := s.core.switch.evaluate_evaluated s.core.policy nowMs edge
      (nearCorner m p edge s.core.policy.cornerSize)
    rw [hgates] at hev
    generalize hcorner : nearCorner m p edge s.core.policy.cornerSize = inCorner at hev hwindow
    cases hev with
    | opens htap hdelay =>
      obtain ⟨htapped, hwaited⟩ := h.opens hplain hhome ⟨hbeside, hwindow⟩ htap hdelay
      exact ⟨edge, hbeside, htapped, hwaited, fun hsize =>
        ⟨m, List.mem_of_find?_eq_some hfind, hon, nearEnd_of_nearCorner hcorner hsize⟩⟩

/-- Whatever moves the input resets both gates. -/
theorem Core.gates_fresh {c : Core} {input : CoreInput}
    (hmoved : (c.react input).1.activeRemote ≠ c.activeRemote ∨ (c.react input).1.seq ≠ c.seq) :
    (c.react input).1.switch.dwell = none ∧ (c.react input).1.switch.lastTap = none := by
  by_cases hpointer : ∃ p nowMs, input = .capture (.pointer p) nowMs ∧ c.activeRemote = none
  · obtain ⟨p, nowMs, rfl, hhome⟩ := hpointer
    have hsampled := onPointer_sampled (local_of_activeRemote hhome) p nowMs
    simp only [react, handle] at hmoved ⊢
    generalize (c.onPointer p nowMs).1 = c', (c.onPointer p nowMs).2 = acts at hsampled hmoved ⊢
    cases hsampled with
    | off hfind => exact absurd hmoved (by simp)
    | inland hfind hcross => exact absurd hmoved (by simp [activeRemote])
    | held hfind hcross hgates hheld => exact absurd hmoved (by simp [activeRemote])
    | crosses hfind hcross hgates => exact ⟨rfl, rfl⟩
  · have hkept : c.GatesKept (c.react input).1 :=
      c.react_gates fun p nowMs hp hhome => hpointer ⟨p, nowMs, hp, hhome⟩
    obtain ⟨-, ⟨-, hactive, hseq⟩ | hreset⟩ := hkept
    · rcases hmoved with hne | hne
      · exact absurd hactive hne
      · exact absurd hseq hne
    · rw [hreset]
      exact ⟨rfl, rfl⟩

/-- **A switch is what the policy asks for, and both gates start afresh after it**, in every run
that keeps out of what the gates confuse. -/
theorem switch_gates {s : GateRun} (hs : gateRuns.Reach Plain s) :
    (∀ p nowMs s', Plain s (.capture (.pointer p) nowMs) →
      s.step (.capture (.pointer p) nowMs) = some s' → s.core.activeRemote = none →
      s'.core.activeRemote ≠ none → ∃ edge, s.Gated p nowMs edge)
    ∧ (∀ input s', s.step input = some s' →
      s'.core.activeRemote ≠ s.core.activeRemote ∨ s'.core.seq ≠ s.core.seq →
      s'.core.switch.dwell = none ∧ s'.core.switch.lastTap = none) := by
  have hinv := gateInv_reach hs
  constructor
  · intro p nowMs s' hplain hstep hhome haway
    rw [GateRun.core_of_step hstep] at haway
    exact hinv.gated hplain hhome haway
  · intro input s' hstep hmoved
    rw [GateRun.core_of_step hstep] at hmoved ⊢
    exact Core.gates_fresh hmoved

/-! ## Two touches, and one -/

/-- The two screens with a policy, "b" connected. -/
def gatedScreens (policy : SwitchPolicy) : GateRun :=
  { core := ((Core.new ⟨["desk", "b"], ∅⟩ policy "desk" [⟨0, 0, 1920, 1080⟩]
      (Dict.put ∅ "b" ⟨1920, 0⟩)).withSizes ∅).withKeyRules [] }

/-- The run from two screens, with the gates at rest. -/
theorem gatedScreens_init (policy : SwitchPolicy) : gateRuns.init (gatedScreens policy) :=
  ⟨_, ⟨_, _, _, _, _, _, _, rfl⟩, rfl⟩

def seenAt (x : Int) (nowMs : Nat) : CoreInput := .capture (.pointer ⟨x, 500⟩) nowMs

def connectB : CoreInput := .hub (.connected "b" [⟨0, 0, 1280, 720⟩])

/-- Tapped, left, tapped again and held there: the switch comes when the delay is over. -/
theorem switch_gates_both : ∃ s, gateRuns.Reach Plain s
    ∧ s.core.policy = { delayMs := 100, doubleTapMs := 250 }
    ∧ ∃ edge, s.Gated ⟨1919, 500⟩ 200 edge := by
  -- tapped at 0, away at 50, and there again from 100 on
  let labels := [connectB, seenAt 1919 0, seenAt 1000 50, seenAt 1919 100]
  let start := gatedScreens { delayMs := 100, doubleTapMs := 250 }
  have hrun : (gateRuns.exec Plain start labels).isSome = true := by decide +kernel
  obtain ⟨s, hs⟩ := Option.isSome_iff_exists.mp hrun
  have hend : (gateRuns.exec Plain start labels).all (fun s =>
      decide (s.core.policy = { delayMs := 100, doubleTapMs := 250 })
        && decide (Plain s (seenAt 1919 200)) && decide (s.core.activeRemote = none)
        && decide ((s.step (seenAt 1919 200)).map (fun s => s.core.activeRemote) = some (some "b")))
      = true := by decide +kernel
  rw [hs, Option.all_some] at hend
  simp only [Bool.and_eq_true, decide_eq_true_eq] at hend
  obtain ⟨⟨⟨hpolicy, hplain⟩, hhome⟩, hstep⟩ := hend
  obtain ⟨s', hstep, haway⟩ := Option.map_eq_some_iff.mp hstep
  refine ⟨s, Lts.reach_of_exec (gatedScreens_init _) hs, hpolicy, ?_⟩
  exact (switch_gates (Lts.reach_of_exec (gatedScreens_init _) hs)).1 _ _ s' hplain hstep hhome
    (by rw [haway]; exact nofun)

/-- With the double tap on, two samples of one touch take the input to "b". With the delay on, a
cursor that was on no monitor meanwhile is taken for one that stayed at the edge. -/
theorem gates_count_one_touch_twice :
    (¬ ∀ s, gateRuns.Reachable s → ∀ p nowMs s', s.step (.capture (.pointer p) nowMs) = some s' →
      s.core.activeRemote = none → s'.core.activeRemote ≠ none → 0 < s.core.policy.doubleTapMs →
      ∃ edge, GateRun.TappedTwice (s.core.sample p nowMs :: s.samples) edge
        s.core.policy.doubleTapMs)
    ∧ ¬ ∀ s, gateRuns.Reachable s → ∀ p nowMs s', s.step (.capture (.pointer p) nowMs) = some s' →
      s.core.activeRemote = none → s'.core.activeRemote ≠ none → 0 < s.core.policy.delayMs →
      ∃ edge, GateRun.Waited (s.core.sample p nowMs :: s.samples) edge s.core.policy.delayMs
        nowMs := by
  constructor
  · intro hall
    let start := gatedScreens { doubleTapMs := 250 }
    have hend : (gateRuns.run start [connectB, seenAt 1919 0]).any (fun s =>
        decide ((s.core.sample ⟨1919, 500⟩ 10 :: s.samples).length = 2)
          && decide (s.core.activeRemote = none) && decide (0 < s.core.policy.doubleTapMs)
          && decide ((s.step (seenAt 1919 10)).map (fun s => s.core.activeRemote) = some (some "b")))
        = true := by decide +kernel
    obtain ⟨s, hs, hend⟩ := (Option.any_eq_true _ _).mp hend
    simp only [Bool.and_eq_true, decide_eq_true_eq] at hend
    obtain ⟨⟨⟨hlength, hhome⟩, hgate⟩, hstep⟩ := hend
    obtain ⟨s', hstep, haway⟩ := Option.map_eq_some_iff.mp hstep
    obtain ⟨edge, since, second, between, away, before, first, old, hall, -⟩ :=
      hall s (Lts.reachable_of_run (gatedScreens_init _) hs) _ _ s' hstep hhome
        (by rw [haway]; exact nofun) hgate
    have hlong := congrArg List.length hall
    rw [hlength] at hlong
    simp at hlong
    omega
  · intro hall
    let start := gatedScreens { delayMs := 200 }
    have hend : (gateRuns.run start [connectB, seenAt 1919 0, seenAt 5000 100]).any (fun s =>
        decide (s.core.sample ⟨1919, 500⟩ 200 :: s.samples
          = [⟨200, [.right], some .right, true⟩, ⟨100, [], none, false⟩,
            ⟨0, [.right], some .right, true⟩])
          && decide (s.core.activeRemote = none) && decide (s.core.policy.delayMs = 200)
          && decide ((s.step (seenAt 1919 200)).map (fun s => s.core.activeRemote) = some (some "b")))
        = true := by decide +kernel
    obtain ⟨s, hs, hend⟩ := (Option.any_eq_true _ _).mp hend
    simp only [Bool.and_eq_true, decide_eq_true_eq] at hend
    obtain ⟨⟨⟨hsamples, hhome⟩, hgate⟩, hstep⟩ := hend
    obtain ⟨s', hstep, haway⟩ := Option.map_eq_some_iff.mp hstep
    obtain ⟨edge, since, first, old, hall, hover, htaps⟩ :=
      hall s (Lts.reachable_of_run (gatedScreens_init _) hs) _ _ s' hstep hhome
        (by rw [haway]; exact nofun) (by omega)
    rw [hgate] at hover
    rw [hsamples] at hall
    -- the sample that is old enough comes before the one on no monitor
    match since, hall with
    | [], hall =>
      rw [List.nil_append, List.cons.injEq] at hall
      rw [← hall.1] at hover
      exact absurd hover (by decide)
    | [y], hall =>
      simp only [List.cons_append, List.nil_append, List.cons.injEq] at hall
      rw [← hall.2.1] at hover
      exact absurd hover (by decide)
    | y :: z :: rest, hall =>
      simp only [List.cons_append, List.cons.injEq] at hall
      have hz := (htaps z (by simp)).1
      rw [← hall.2.1] at hz
      cases hz

end GeserDesk
