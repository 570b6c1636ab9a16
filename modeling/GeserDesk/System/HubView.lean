import GeserDesk.System.HubRuns

/-!
# The router's view of the hub

Once nothing is in progress, the fold of the events the hub sent should be the registry
without the screens turned off, and no `Disconnected` of an old session should come after the
`Connected` of the one that replaced it (`HubAgreement`).

The registry, the disabled set and the event channel are locked apart, so this is not so for
every interleaving: two windows let an event overtake the one that should follow it.

* `unregister` removes the entry, then sends `Disconnected`. A `Connected` for the name sent
  in between (by the session that took the name) is undone by it.
* `register` and `set_monitors` find the screen enabled, then send `Connected`. A
  `set_disabled` that sends its `Disconnected` in between is undone by it.

`Undisturbed` says no event is sent into such a window. Under it every name keeps the
invariant `NameView`, whatever else is interleaved.
-/

namespace GeserDesk

/-- The name a session runs under. -/
def SessionPc.name : SessionPc → String
  | .checking n _ | .announcing n _ | .live n | .leaving n => n

/-- The session is between the two halves of `unregister` of `name`. -/
def SessionPc.IsLeaving (name : String) (pc : SessionPc) : Prop := pc = .leaving name

/-- The session found `name` enabled and is about to send `Connected`. -/
def SessionPc.IsAnnouncing (name : String) : SessionPc → Prop
  | .announcing n _ => n = name
  | _ => False

/-- The session is registered under `name`, with no call under way. -/
def SessionPc.IsLive (name : String) (pc : SessionPc) : Prop := pc = .live name

instance (name : String) : DecidablePred (SessionPc.IsLeaving name) := fun pc =>
  inferInstanceAs (Decidable (pc = .leaving name))

instance (name : String) : DecidablePred (SessionPc.IsAnnouncing name)
  | .announcing n _ => inferInstanceAs (Decidable (n = name))
  | .checking _ _ | .live _ | .leaving _ => .isFalse id

namespace HubRun

def Leaving (s : HubRun) (name : String) : Prop := s.sessions.Any (SessionPc.IsLeaving name)
def Announcing (s : HubRun) (name : String) : Prop := s.sessions.Any (SessionPc.IsAnnouncing name)
def Live (s : HubRun) (name : String) : Prop := s.sessions.Any (SessionPc.IsLive name)

instance (s : HubRun) (name : String) : Decidable (s.Leaving name) :=
  inferInstanceAs (Decidable (Dict.Any _ _))

instance (s : HubRun) (name : String) : Decidable (s.Announcing name) :=
  inferInstanceAs (Decidable (Dict.Any _ _))

/-- `set_disabled` is between its two sections for `name`. -/
def Switching (s : HubRun) (name : String) : Prop := ∃ b, s.admin = some (name, b)

/-- No call on the hub is under way. -/
def Quiet (s : HubRun) : Prop := s.sessions.All (fun pc => pc = .live pc.name) ∧ s.admin = none

instance (s : HubRun) : Decidable s.Quiet := inferInstanceAs (Decidable (_ ∧ _))

/-- The router's picture of `name`. -/
def view (s : HubRun) (name : String) : Option (List Rect) :=
  (routerView s.hub.events).get? name

/-- What that picture should be: the latest monitors of a client that is registered and not
turned off. -/
def expected (s : HubRun) (name : String) : Option (List Rect) :=
  if name ∈ s.hub.disabled then none else (s.hub.clients.get? name).map (·.monitors)

end HubRun

/-- `Disconnected` of an older session, sent after the `Connected` of a newer one. -/
def StaleAfter (a b : HubEvent × Option Nat) : Prop :=
  ∃ name monitors newer older, a = (.connected name monitors, some newer)
    ∧ b = (.disconnected name, some older) ∧ older < newer

/-- The router's view agrees with the registry once nothing is under way, and no event of an
old session overtakes one of the session that replaced it. -/
structure HubAgreement (s : HubRun) : Prop where
  settled : s.Quiet → ∀ name, s.view name = s.expected name
  /-- The stamped events are the ones the hub sent. -/
  stamped : s.posted.map (·.1) = s.hub.events
  ordered : s.posted.Pairwise fun a b => ¬ StaleAfter a b

/-- The step sends no event into a window of another call for the same name: `Connected`
only while no session of the name is inside `unregister`, and the `Disconnected` of
`set_disabled` only while none is about to send `Connected`. -/
def Undisturbed (s : HubRun) : HubLabel → Prop
  | .announce sid =>
    match s.sessions.get? sid with
    | some (.announcing name _) => ¬ s.Leaving name
    | _ => True
  | .tell =>
    match s.admin with
    | some (name, true) => ¬ s.Announcing name
    | some (name, false) => ¬ (s.Leaving name ∧ s.hub.contains name = true)
    | none => True
  | _ => True

instance (s : HubRun) (l : HubLabel) : Decidable (Undisturbed s l) := by
  unfold Undisturbed
  repeat' split
  all_goals infer_instance

/-- When `Connected` is sent no session of the name is leaving. -/
theorem Undisturbed.announce {s : HubRun} {sid : Nat} {name : String} {ms : List Rect}
    (hok : Undisturbed s (.announce sid)) (hpc : s.sessions.get? sid = some (.announcing name ms)) :
    ¬ s.Leaving name := by
  unfold Undisturbed at hok
  dsimp only at hok
  rw [hpc] at hok
  exact hok

/-- When a machine is turned off none is about to be announced. -/
theorem Undisturbed.tellOff {s : HubRun} {name : String} (hok : Undisturbed s .tell)
    (hadmin : s.admin = some (name, true)) : ¬ s.Announcing name := by
  unfold Undisturbed at hok
  dsimp only at hok
  rw [hadmin] at hok
  exact hok

/-- When a registered one is turned on again none is leaving. -/
theorem Undisturbed.tellOn {s : HubRun} {name : String} {e : Entry ServerMsg}
    (hok : Undisturbed s .tell) (hadmin : s.admin = some (name, false))
    (he : s.hub.clients.get? name = some e) : ¬ s.Leaving name := by
  unfold Undisturbed at hok
  dsimp only at hok
  rw [hadmin] at hok
  exact fun hle => hok ⟨hle, (Hub.contains_iff s.hub name).mpr ⟨e, he⟩⟩

/-! ## What one step can do

A rule for each step, with the registry and the event it sends. -/

/-- Every outcome of a step of the hub. -/
inductive HubStep (s : HubRun) : HubLabel → HubRun → Prop where
  | registerInsert {name : String} {ms : List Rect} (hfree : s.hub.clients.get? name = none) :
      HubStep s (.registerInsert name ms) { s with
        hub := { s.hub with clients := s.hub.clients.put name ⟨[], ms⟩ }
        sessions := s.sessions.put s.nextSession (.checking name ms)
        nextSession := s.nextSession + 1 }
  | checkOff {sid : Nat} {name : String} {ms : List Rect}
      (hpc : s.sessions.get? sid = some (.checking name ms)) (hoff : name ∈ s.hub.disabled) :
      HubStep s (.check sid) { s with sessions := s.sessions.put sid (.live name) }
  | checkOn {sid : Nat} {name : String} {ms : List Rect}
      (hpc : s.sessions.get? sid = some (.checking name ms)) (hon : name ∉ s.hub.disabled) :
      HubStep s (.check sid) { s with sessions := s.sessions.put sid (.announcing name ms) }
  | announce {sid : Nat} {name : String} {ms : List Rect}
      (hpc : s.sessions.get? sid = some (.announcing name ms)) :
      HubStep s (.announce sid) { s with
        hub := s.hub.emit (.connected name ms)
        sessions := s.sessions.put sid (.live name)
        posted := s.posted ++ [(.connected name ms, some sid)] }
  | monitorsSame {sid : Nat} {ms : List Rect} : HubStep s (.setMonitorsEntry sid ms) s
  | monitorsNew {sid : Nat} {name : String} {ms : List Rect} {e : Entry ServerMsg}
      (hpc : s.sessions.get? sid = some (.live name)) (he : s.hub.clients.get? name = some e) :
      HubStep s (.setMonitorsEntry sid ms) { s with
        hub := { s.hub with clients := s.hub.clients.put name { e with monitors := ms } }
        sessions := s.sessions.put sid (.checking name ms) }
  | remove {sid : Nat} {name : String} (hpc : s.sessions.get? sid = some (.live name)) :
      HubStep s (.remove sid) { s with
        hub := { s.hub with clients := s.hub.clients.drop name }
        sessions := s.sessions.put sid (.leaving name) }
  | sayGone {sid : Nat} {name : String} (hpc : s.sessions.get? sid = some (.leaving name)) :
      HubStep s (.sayGone sid) { s with
        hub := s.hub.emit (.disconnected name)
        sessions := s.sessions.drop sid
        posted := s.posted ++ [(.disconnected name, some sid)] }
  | flipSame {name : String} {b : Bool} : HubStep s (.flip name b) s
  | flipOff {name : String} (hadmin : s.admin = none) (hon : name ∉ s.hub.disabled) :
      HubStep s (.flip name true) { s with
        hub := { s.hub with disabled := insert name s.hub.disabled }
        admin := some (name, true) }
  | flipOn {name : String} (hadmin : s.admin = none) (hoff : name ∈ s.hub.disabled) :
      HubStep s (.flip name false) { s with
        hub := { s.hub with disabled := s.hub.disabled.erase name }
        admin := some (name, false) }
  | tellNobody {name : String} {b : Bool} (hadmin : s.admin = some (name, b))
      (hgone : s.hub.clients.get? name = none) : HubStep s .tell { s with admin := none }
  | tellOff {name : String} {e : Entry ServerMsg} (hadmin : s.admin = some (name, true))
      (he : s.hub.clients.get? name = some e) :
      HubStep s .tell { s with
        hub := s.hub.emit (.disconnected name)
        admin := none
        posted := s.posted ++ [(.disconnected name, s.holder name)] }
  | tellOn {name : String} {e : Entry ServerMsg} (hadmin : s.admin = some (name, false))
      (he : s.hub.clients.get? name = some e) :
      HubStep s .tell { s with
        hub := s.hub.emit (.connected name e.monitors)
        admin := none
        posted := s.posted ++ [(.connected name e.monitors, s.holder name)] }
  | post {ev : HubEvent} (hev : ev.isGeneral = true) :
      HubStep s (.post ev) { s with
        hub := s.hub.emit ev
        posted := s.posted ++ [(ev, none)] }

/-- **Every step is one of those of `HubStep`**, taken apart once and for all. -/
theorem hubStep_of_step {s s' : HubRun} {l : HubLabel} (h : s.step l = some s') :
    HubStep s l s' := by
  cases l with
  -- the branches of the step, each with the rule it comes to
  | registerInsert name ms =>
    simp only [HubRun.step, Hub.insertClient, Hub.contains] at h
    cases hc : s.hub.clients.get? name with
    | some e => simp [hc] at h
    | none => simp [hc] at h; exact h ▸ .registerInsert hc
  | check sid =>
    simp only [HubRun.step, Hub.isDisabled] at h
    split at h
    · next name ms hpc =>
      by_cases hd : name ∈ s.hub.disabled
      · simp [hd] at h; exact h ▸ .checkOff hpc hd
      · simp [hd] at h; exact h ▸ .checkOn hpc hd
    · cases h
  | announce sid =>
    simp only [HubRun.step] at h
    split at h
    · next name ms hpc => exact (Option.some.inj h) ▸ .announce hpc
    · cases h
  | setMonitorsEntry sid ms =>
    simp only [HubRun.step, Hub.setMonitorsEntry] at h
    split at h
    · next name hpc =>
      cases he : s.hub.clients.get? name with
      | none => simp [he] at h; exact h ▸ .monitorsSame
      | some e =>
        by_cases hm : e.monitors = ms
        · simp [he, hm] at h; exact h ▸ .monitorsSame
        · simp [he, hm] at h; exact h ▸ .monitorsNew hpc he
    · cases h
  | remove sid =>
    simp only [HubRun.step] at h
    split at h
    · next name hpc => exact (Option.some.inj h) ▸ .remove hpc
    · cases h
  | sayGone sid =>
    simp only [HubRun.step] at h
    split at h
    · next name hpc => exact (Option.some.inj h) ▸ .sayGone hpc
    · cases h
  | flip name b =>
    simp only [HubRun.step, Hub.flipDisabled] at h
    split at h
    · cases h
    · next hadmin =>
      by_cases hd : name ∈ s.hub.disabled <;> cases b <;> simp [hd] at h
      · exact h ▸ .flipOn hadmin hd
      · exact h ▸ .flipSame
      · exact h ▸ .flipSame
      · exact h ▸ .flipOff hadmin hd
  | tell =>
    simp only [HubRun.step, Hub.tellRouter] at h
    split at h
    · cases h
    · next name b hadmin =>
      cases he : s.hub.clients.get? name with
      | none => simp [he] at h; exact h ▸ .tellNobody hadmin he
      | some e =>
        cases b <;> simp [he] at h
        · exact h ▸ .tellOn hadmin he
        · exact h ▸ .tellOff hadmin he
  | post ev =>
    simp only [HubRun.step] at h
    split at h
    · next hev => exact (Option.some.inj h) ▸ .post hev
    · cases h

/-! ## The registry and its sessions

A name in the registry belongs to one session, which is live or on its way in or out. -/

/-- What a session owes, it owes for the name it holds. -/
theorem SessionPc.holds_of_owes {pc : SessionPc} {name : String} {ms : List Rect}
    (h : pc.owes = some (name, ms)) : pc.holds = some name := by
  cases pc <;> simp_all [owes, holds]

/-- The sessions and the entries they hold match. -/
structure HubWf (s : HubRun) : Prop where
  /-- A session that holds a name has the entry. -/
  entry : ∀ sid pc name, s.sessions.get? sid = some pc → pc.holds = some name →
    (s.hub.clients.get? name).isSome = true
  /-- The monitors it is about to announce are the entry's. -/
  owed : ∀ sid pc name ms, s.sessions.get? sid = some pc → pc.owes = some (name, ms) →
    (s.hub.clients.get? name).map (·.monitors) = some ms
  /-- Every entry has its session. -/
  session : ∀ name, (s.hub.clients.get? name).isSome = true →
    s.sessions.Any fun pc => pc.holds = some name
  /-- No two sessions hold one name. -/
  unique : ∀ sid sid' pc pc' name, s.sessions.get? sid = some pc →
    s.sessions.get? sid' = some pc' → pc.holds = some name → pc'.holds = some name → sid = sid'
  fresh : ∀ sid pc, s.sessions.get? sid = some pc → sid < s.nextSession

/-- The next session's number is free. -/
theorem HubWf.fresh_next {s : HubRun} (h : HubWf s) : s.sessions.get? s.nextSession = none := by
  cases hn : s.sessions.get? s.nextSession with
  | none => rfl
  | some pc => exact absurd (h.fresh _ _ hn) (Nat.lt_irrefl _)

/-- The hub as it starts: no session, no client. -/
theorem hubWf_start (added : List String) (disabled : Finset String) :
    HubWf (HubRun.start added disabled) := by
  constructor <;> intros <;> simp_all [HubRun.start]

/-- A session moving on while it keeps its name, and owing what the entry holds, keeps the
registry and the sessions matched. -/
theorem HubWf.put_session {s s' : HubRun} (h : HubWf s) {sid : Nat} {old : SessionPc}
    (pc : SessionPc) (hold : s.sessions.get? sid = some old) (hsame : pc.holds = old.holds)
    (howes : ∀ name ms, pc.owes = some (name, ms) → old.owes = some (name, ms))
    (hsessions : s'.sessions = s.sessions.put sid pc) (hnext : s'.nextSession = s.nextSession)
    (hclients : s'.hub.clients = s.hub.clients) : HubWf s' := by
  obtain ⟨hentry, howed, hsession, hunique, hfresh⟩ := h
  constructor
  · rw [hsessions, hclients]; grind
  · rw [hsessions, hclients]; grind
  · rw [hsessions, hclients]
    intro name hn
    obtain ⟨k, w, hk, hw⟩ := hsession name hn
    by_cases hks : k = sid
    · subst hks
      rw [hold, Option.some.injEq] at hk
      exact .intro (k := k) (v := pc) (by simp) (by rw [hsame, hk]; exact hw)
    · exact .intro (k := k) (v := w) (by simp [hks, hk]) hw
  · rw [hsessions]; grind
  · rw [hsessions, hnext]; grind

/-- No step lets two sessions hold a name, or a name be held that is not registered. -/
theorem hubWf_step {s s' : HubRun} {l : HubLabel} (h : HubWf s) (hs : HubStep s l s') :
    HubWf s' := by
  cases hs with
  | registerInsert hfree =>
    have hnone := h.fresh_next
    obtain ⟨hentry, howed, hsession, hunique, hfresh⟩ := h
    constructor <;> simp only
    · grind [SessionPc.holds]
    · grind [SessionPc.holds, SessionPc.owes]
    · intro name hn
      rw [Dict.any_put_fresh hnone]
      grind [SessionPc.holds]
    · grind [SessionPc.holds]
    · grind
  | @checkOff sid name ms hpc hoff =>
    exact h.put_session (.live name) hpc rfl (by simp [SessionPc.owes]) rfl rfl rfl
  | @checkOn sid name ms hpc hon =>
    exact h.put_session (.announcing name ms) hpc rfl (fun _ _ ho => ho) rfl rfl rfl
  | @announce sid name ms hpc =>
    exact h.put_session (.live name) hpc rfl (by simp [SessionPc.owes]) rfl rfl rfl
  | monitorsSame => exact h
  | @monitorsNew sid name ms e hpc he =>
    obtain ⟨hentry, howed, hsession, hunique, hfresh⟩ := h
    constructor <;> simp only
    · intro sid' pc n hs hn
      rw [Dict.get?_put] at hs ⊢
      by_cases hname : n = name
      · rw [if_pos hname]; rfl
      · rw [if_neg hname]
        by_cases hsid : sid' = sid
        · rw [if_pos hsid, Option.some.injEq] at hs
          subst hs
          exact absurd (Option.some.inj hn).symm hname
        · rw [if_neg hsid] at hs
          exact hentry sid' pc n hs hn
    · intro sid' pc n ms' hs ho
      rw [Dict.get?_put] at hs ⊢
      by_cases hsid : sid' = sid
      · rw [if_pos hsid, Option.some.injEq] at hs
        subst hs
        obtain ⟨rfl, rfl⟩ : name = n ∧ ms = ms' := by simpa [SessionPc.owes] using ho
        rw [if_pos rfl]; rfl
      · rw [if_neg hsid] at hs
        -- another session holds another name
        have hname : n ≠ name := by
          rintro rfl
          exact hsid (hunique _ _ _ _ _ hs hpc (SessionPc.holds_of_owes ho) rfl)
        rw [if_neg hname]
        exact howed sid' pc n ms' hs ho
    · intro n hn
      by_cases hname : n = name
      · exact .intro (k := sid) (v := .checking name ms) (by simp) (by rw [hname]; rfl)
      · rw [Dict.any_put_of_not hpc (by simpa [SessionPc.holds] using Ne.symm hname)]
        exact .inr (hsession n (by simpa [hname] using hn))
    · grind [SessionPc.holds]
    · grind
  | @remove sid name hpc =>
    obtain ⟨hentry, howed, hsession, hunique, hfresh⟩ := h
    -- whoever else holds a name holds another one
    have hother : ∀ sid' pc n, sid' ≠ sid → s.sessions.get? sid' = some pc →
        pc.holds = some n → n ≠ name := by
      rintro sid' pc n hne hs hn rfl
      exact hne (hunique _ _ _ _ _ hs hpc hn rfl)
    constructor <;> simp only
    · grind [SessionPc.holds]
    · intro sid' pc n ms' hs ho
      rw [Dict.get?_put] at hs
      by_cases hsid : sid' = sid
      · rw [if_pos hsid, Option.some.injEq] at hs
        subst hs; cases ho
      · rw [if_neg hsid] at hs
        rw [Dict.get?_drop, if_neg (hother sid' pc n hsid hs (SessionPc.holds_of_owes ho))]
        exact howed sid' pc n ms' hs ho
    · intro n hn
      have hname : n ≠ name := by rintro rfl; simp at hn
      rw [Dict.any_put_of_not hpc (by simpa [SessionPc.holds] using Ne.symm hname)]
      exact .inr (hsession n (by simpa [hname] using hn))
    · grind [SessionPc.holds]
    · grind
  | @sayGone sid name hpc =>
    obtain ⟨hentry, howed, hsession, hunique, hfresh⟩ := h
    constructor <;> simp only [Hub.emit_clients]
    · grind
    · grind
    · intro n hn
      rw [Dict.any_drop_of_not hpc (by simp [SessionPc.holds])]
      exact hsession n hn
    · grind
    · grind
  | flipSame => exact h
  | flipOff hadmin hon => exact ⟨h.entry, h.owed, h.session, h.unique, h.fresh⟩
  | flipOn hadmin hoff => exact ⟨h.entry, h.owed, h.session, h.unique, h.fresh⟩
  | tellNobody hadmin hgone => exact ⟨h.entry, h.owed, h.session, h.unique, h.fresh⟩
  | tellOff hadmin he => exact ⟨h.entry, h.owed, h.session, h.unique, h.fresh⟩
  | tellOn hadmin he => exact ⟨h.entry, h.owed, h.session, h.unique, h.fresh⟩
  | post hev => exact ⟨h.entry, h.owed, h.session, h.unique, h.fresh⟩

/-- The invariant holds in every state reached. -/
theorem hubWf_reach {ok : HubRun → HubLabel → Prop} {s : HubRun} (hs : hubRuns.Reach ok s) :
    HubWf s := by
  refine Lts.Reach.invariant (P := HubWf) ?_ ?_ hs
  · rintro _ ⟨added, disabled, rfl⟩
    exact hubWf_start added disabled
  · intro _ _ _ _ ih _ hl
    exact hubWf_step ih (hubStep_of_step hl)

/-! ## One name's part of the view

The router's view of one name is what the events sent about it say. -/

/-- What holds of every name in an undisturbed run, also while calls are under way. -/
structure NameView (s : HubRun) (n : String) : Prop where
  /-- A screen turned off is out of the view, or about to leave it. -/
  off : n ∈ s.hub.disabled → ¬ s.Switching n → s.view n = none ∨ s.Leaving n
  /-- So is one that is not registered. -/
  gone : s.hub.clients.get? n = none → s.view n = none ∨ s.Leaving n
  /-- A screen that is on, with no call under way, is in the view with its monitors. -/
  on : s.Live n → n ∉ s.hub.disabled → ¬ s.Switching n →
    s.view n = (s.hub.clients.get? n).map (·.monitors) ∧ ¬ s.Leaving n
  /-- A session announces a screen that was turned off only while `set_disabled` is at it. -/
  announcing : s.Announcing n → n ∈ s.hub.disabled → s.Switching n
  switching : ∀ b, s.admin = some (n, b) → (n ∈ s.hub.disabled ↔ b = true)

/-- At the start the router knows of nobody, as it should. -/
theorem nameView_start (added : List String) (disabled : Finset String) (n : String) :
    NameView (HubRun.start added disabled) n where
  off _ _ := .inl (Dict.get?_empty n)
  gone _ := .inl (Dict.get?_empty n)
  on h := absurd h (Dict.not_any_empty _)
  announcing h := absurd h (Dict.not_any_empty _)
  switching _ h := nomatch h

/-- What `NameView` reads of a state: nothing else matters for a name. -/
theorem NameView.congr {s s' : HubRun} {n : String} (h : NameView s n)
    (hview : s'.view n = s.view n)
    (hclients : s'.hub.clients.get? n = s.hub.clients.get? n)
    (hdisabled : n ∈ s'.hub.disabled ↔ n ∈ s.hub.disabled)
    (hadmin : ∀ b, s'.admin = some (n, b) ↔ s.admin = some (n, b))
    (hleaving : s'.Leaving n ↔ s.Leaving n) (hannouncing : s'.Announcing n ↔ s.Announcing n)
    (hlive : s'.Live n ↔ s.Live n) : NameView s' n := by
  have hswitching : s'.Switching n ↔ s.Switching n := exists_congr hadmin
  constructor
  · rw [hdisabled, hswitching, hview, hleaving]; exact h.off
  · rw [hclients, hview, hleaving]; exact h.gone
  · rw [hlive, hdisabled, hswitching, hview, hclients, hleaving]; exact h.on
  · rw [hannouncing, hdisabled, hswitching]; exact h.announcing
  · intro b; rw [hadmin, hdisabled]; exact h.switching b

/-- A machine that connected is in view from then on. -/
theorem view_connected (events : List HubEvent) (name n : String) (ms : List Rect) :
    (routerView (events ++ [.connected name ms])).get? n
      = if n = name then some ms else (routerView events).get? n := by
  rw [routerView_append, viewEvent, Dict.get?_put]

/-- A machine that went away is not in view. -/
theorem view_disconnected (events : List HubEvent) (name n : String) :
    (routerView (events ++ [.disconnected name])).get? n
      = if n = name then none else (routerView events).get? n := by
  rw [routerView_append, viewEvent, Dict.get?_drop]

/-- Events of the desk as a whole change the view of no machine. -/
theorem view_general (events : List HubEvent) {ev : HubEvent} (hev : ev.isGeneral = true) :
    routerView (events ++ [ev]) = routerView events := by
  rw [routerView_append]
  cases ev <;> first | rfl | cases hev

/-- A session moving on under another name is nothing to `n`. -/
theorem NameView.session_other {s s' : HubRun} {n : String} (h : NameView s n) {sid : Nat}
    {old : SessionPc} (pc : SessionPc) (hold : s.sessions.get? sid = some old) (hne : old.name ≠ n)
    (hname : pc.name = old.name) (hsessions : s'.sessions = s.sessions.put sid pc)
    (hview : s'.view n = s.view n)
    (hclients : s'.hub.clients.get? n = s.hub.clients.get? n)
    (hdisabled : s'.hub.disabled = s.hub.disabled) (hadmin : s'.admin = s.admin) :
    NameView s' n := by
  have hnot : ∀ q : SessionPc, q.name ≠ n →
      ¬ q.IsLeaving n ∧ ¬ q.IsAnnouncing n ∧ ¬ q.IsLive n := by
    intro q hq
    cases q <;> simp_all [SessionPc.name, SessionPc.IsLeaving, SessionPc.IsAnnouncing,
      SessionPc.IsLive]
  obtain ⟨hl, ha, hv⟩ := hnot old hne
  obtain ⟨hl', ha', hv'⟩ := hnot pc (hname ▸ hne)
  refine h.congr hview hclients (by rw [hdisabled]) (fun b => by rw [hadmin]) ?_ ?_ ?_
  · unfold HubRun.Leaving; rw [hsessions]; exact Dict.any_put_other hold hl hl'
  · unfold HubRun.Announcing; rw [hsessions]; exact Dict.any_put_other hold ha ha'
  · unfold HubRun.Live; rw [hsessions]; exact Dict.any_put_other hold hv hv'

/-- A live session's name is registered. -/
theorem HubWf.registered_of_live {s : HubRun} (h : HubWf s) {n : String} (hl : s.Live n) :
    (s.hub.clients.get? n).isSome = true := by
  obtain ⟨sid, pc, hs, rfl⟩ := hl
  exact h.entry sid _ n hs rfl

/-- A name that is being announced is registered. -/
theorem HubWf.registered_of_announcing {s : HubRun} (h : HubWf s) {n : String}
    (ha : s.Announcing n) : (s.hub.clients.get? n).isSome = true := by
  obtain ⟨sid, pc, hs, hpc⟩ := ha
  cases pc with
  | announcing m ms => exact h.entry sid _ n hs (congrArg some hpc)
  | checking m ms => cases hpc
  | live m => cases hpc
  | leaving m => cases hpc

/-- Once the session that holds `n` has moved to where it is not live, no session is live. -/
theorem HubWf.not_live_put {s : HubRun} (h : HubWf s) {n : String} {sid : Nat} {pc : SessionPc}
    (hpc : s.sessions.get? sid = some (.live n)) (hnew : ¬ pc.IsLive n) :
    ¬ (s.sessions.put sid pc).Any (SessionPc.IsLive n) := by
  rintro ⟨sid', pc', hs, rfl⟩
  rw [Dict.get?_put] at hs
  by_cases hsid : sid' = sid
  · rw [if_pos hsid, Option.some.injEq] at hs
    exact hnew hs
  · rw [if_neg hsid] at hs
    exact hsid (h.unique _ _ _ _ n hs hpc rfl rfl)

section

/-! ### Outcome by outcome

Only the steps about the name itself touch its part of the view; for the others `congr` and
`session_other` carry it over. -/

variable {s : HubRun} {n : String}

/-- A client registers: the name was free, so nobody was live under it. -/
theorem NameView.registerInsert (hwf : HubWf s) (h : NameView s n) {name : String} {ms : List Rect}
    (hfree : s.hub.clients.get? name = none) :
    NameView { s with
      hub := { s.hub with clients := s.hub.clients.put name ⟨[], ms⟩ }
      sessions := s.sessions.put s.nextSession (.checking name ms)
      nextSession := s.nextSession + 1 } n := by
  have hfresh := hwf.fresh_next
  have hl : (s.sessions.put s.nextSession (.checking name ms)).Any (SessionPc.IsLeaving n)
      ↔ s.Leaving n := by
    rw [Dict.any_put_fresh hfresh]
    exact or_iff_right nofun
  have ha : (s.sessions.put s.nextSession (.checking name ms)).Any (SessionPc.IsAnnouncing n)
      ↔ s.Announcing n := by
    rw [Dict.any_put_fresh hfresh]
    exact or_iff_right nofun
  have hv : (s.sessions.put s.nextSession (.checking name ms)).Any (SessionPc.IsLive n)
      ↔ s.Live n := by
    rw [Dict.any_put_fresh hfresh]
    exact or_iff_right nofun
  by_cases hn : n = name
  · subst hn
    refine ⟨fun hd hsw => (h.off hd hsw).imp id hl.mpr, ?_, ?_, fun hann => h.announcing (ha.mp hann),
      h.switching⟩
    · intro hnone
      exact absurd hnone (by simp)
    · intro hlive
      have := hwf.registered_of_live (hv.mp hlive)
      rw [hfree] at this
      cases this
  · exact h.congr rfl (by simp [hn]) Iff.rfl (fun _ => Iff.rfl) hl ha hv

/-- A client that is turned off needs no `Connected`. -/
theorem NameView.checkOff (h : NameView s n) {sid : Nat} {name : String} {ms : List Rect}
    (hpc : s.sessions.get? sid = some (.checking name ms)) (hoff : name ∈ s.hub.disabled) :
    NameView { s with sessions := s.sessions.put sid (.live name) } n := by
  have hl : (s.sessions.put sid (.live name)).Any (SessionPc.IsLeaving n) ↔ s.Leaving n :=
    Dict.any_put_other hpc nofun nofun
  have ha : (s.sessions.put sid (.live name)).Any (SessionPc.IsAnnouncing n)
      ↔ s.Announcing n := Dict.any_put_other hpc id id
  refine ⟨fun hd hsw => (h.off hd hsw).imp id hl.mpr, fun hg => (h.gone hg).imp id hl.mpr, ?_,
    fun hann => h.announcing (ha.mp hann), h.switching⟩
  intro hlive hd hsw
  rcases Dict.of_any_put hlive with hname | hlive
  · obtain rfl : name = n := SessionPc.live.inj hname
    exact absurd hoff hd
  · exact ⟨(h.on hlive hd hsw).1, fun hle => (h.on hlive hd hsw).2 (hl.mp hle)⟩

/-- One that is not is about to be announced. -/
theorem NameView.checkOn (h : NameView s n) {sid : Nat} {name : String} {ms : List Rect}
    (hpc : s.sessions.get? sid = some (.checking name ms)) (hon : name ∉ s.hub.disabled) :
    NameView { s with sessions := s.sessions.put sid (.announcing name ms) } n := by
  have hl : (s.sessions.put sid (.announcing name ms)).Any (SessionPc.IsLeaving n)
      ↔ s.Leaving n := Dict.any_put_other hpc nofun nofun
  have hv : (s.sessions.put sid (.announcing name ms)).Any (SessionPc.IsLive n) ↔ s.Live n :=
    Dict.any_put_other hpc nofun nofun
  refine ⟨fun hd hsw => (h.off hd hsw).imp id hl.mpr, fun hg => (h.gone hg).imp id hl.mpr, ?_, ?_,
    h.switching⟩
  · intro hlive hd hsw
    have := h.on (hv.mp hlive) hd hsw
    exact ⟨this.1, fun hle => this.2 (hl.mp hle)⟩
  · intro hann hd
    rcases Dict.of_any_put hann with hname | hann
    · obtain rfl : name = n := hname
      exact absurd hd hon
    · exact h.announcing hann hd

/-- `Connected` comes while no session of the name is leaving, so it stays the last word. -/
theorem NameView.announce (hwf : HubWf s) (h : NameView s n) {sid : Nat} {name : String}
    {ms : List Rect} (hpc : s.sessions.get? sid = some (.announcing name ms))
    (hok : Undisturbed s (.announce sid)) :
    NameView { s with
      hub := s.hub.emit (.connected name ms)
      sessions := s.sessions.put sid (.live name)
      posted := s.posted ++ [(.connected name ms, some sid)] } n := by
  by_cases hn : n = name
  · subst hn
    have hquiet : ¬ s.Leaving n := hok.announce hpc
    have hl : (s.sessions.put sid (.live n)).Any (SessionPc.IsLeaving n) ↔ s.Leaving n :=
      Dict.any_put_other hpc nofun nofun
    have hmine : s.Announcing n := .intro hpc rfl
    have howed := hwf.owed sid _ n ms hpc rfl
    refine ⟨fun hd hsw => absurd (h.announcing hmine hd) hsw, ?_, ?_, ?_, h.switching⟩
    · intro hg
      have := hwf.registered_of_announcing hmine
      rw [show s.hub.clients.get? n = none from hg] at this
      cases this
    · intro _ _ _
      refine ⟨?_, fun hle => hquiet (hl.mp hle)⟩
      show (routerView (s.hub.events ++ [.connected n ms])).get? n = _
      rw [view_connected, if_pos rfl]
      exact howed.symm
    · intro _ hd
      exact h.announcing hmine hd
  · refine h.session_other (.live name) hpc (fun e => hn e.symm) rfl rfl ?_ rfl rfl rfl
    show (routerView (s.hub.events ++ [.connected name ms])).get? n = _
    rw [view_connected, if_neg hn]; rfl

/-- New monitors put the session before its check again. -/
theorem NameView.monitorsNew (hwf : HubWf s) (h : NameView s n) {sid : Nat} {name : String}
    {ms : List Rect} {e : Entry ServerMsg} (hpc : s.sessions.get? sid = some (.live name))
    (he : s.hub.clients.get? name = some e) :
    NameView { s with
      hub := { s.hub with clients := s.hub.clients.put name { e with monitors := ms } }
      sessions := s.sessions.put sid (.checking name ms) } n := by
  by_cases hn : n = name
  · subst hn
    have hl : (s.sessions.put sid (.checking n ms)).Any (SessionPc.IsLeaving n)
        ↔ s.Leaving n := Dict.any_put_other hpc nofun nofun
    have ha : (s.sessions.put sid (.checking n ms)).Any (SessionPc.IsAnnouncing n)
        ↔ s.Announcing n := Dict.any_put_other hpc id id
    refine ⟨fun hd hsw => (h.off hd hsw).imp id hl.mpr, ?_, ?_, fun hann => h.announcing (ha.mp hann),
      h.switching⟩
    · intro hg
      exact absurd hg (by simp)
    · intro hlive
      exact absurd hlive (hwf.not_live_put hpc nofun)
  · exact h.session_other (.checking name ms) hpc (fun e => hn e.symm) rfl rfl rfl (by simp [hn]) rfl rfl

/-- The entry goes first, and the session still owes the router its `Disconnected`. -/
theorem NameView.remove (hwf : HubWf s) (h : NameView s n) {sid : Nat} {name : String}
    (hpc : s.sessions.get? sid = some (.live name)) :
    NameView { s with
      hub := { s.hub with clients := s.hub.clients.drop name }
      sessions := s.sessions.put sid (.leaving name) } n := by
  by_cases hn : n = name
  · subst hn
    have hleaving : (s.sessions.put sid (.leaving n)).Any (SessionPc.IsLeaving n) :=
      .intro (k := sid) (v := .leaving n) (by simp) rfl
    have ha : (s.sessions.put sid (.leaving n)).Any (SessionPc.IsAnnouncing n)
        ↔ s.Announcing n := Dict.any_put_other hpc id id
    refine ⟨fun _ _ => .inr hleaving, fun _ => .inr hleaving, ?_,
      fun hann => h.announcing (ha.mp hann), h.switching⟩
    intro hlive
    exact absurd hlive (hwf.not_live_put hpc nofun)
  · exact h.session_other (.leaving name) hpc (fun e => hn e.symm) rfl rfl rfl (by simp [hn]) rfl rfl

/-- `Disconnected` is sent: a live screen has no session that leaves, so it is another's. -/
theorem NameView.sayGone (h : NameView s n) {sid : Nat} {name : String}
    (hpc : s.sessions.get? sid = some (.leaving name)) :
    NameView { s with
      hub := s.hub.emit (.disconnected name)
      sessions := s.sessions.drop sid
      posted := s.posted ++ [(.disconnected name, some sid)] } n := by
  by_cases hn : n = name
  · subst hn
    have hnone : (routerView (s.hub.events ++ [.disconnected n])).get? n = none := by
      rw [view_disconnected, if_pos rfl]
    refine ⟨fun _ _ => .inl hnone, fun _ => .inl hnone, ?_,
      fun hann => h.announcing (Dict.of_any_drop hann), h.switching⟩
    -- a live screen has no session leaving, so this one cannot be
    intro hlive hd hsw
    exact absurd ⟨sid, _, hpc, rfl⟩ (h.on (Dict.of_any_drop hlive) hd hsw).2
  · have hne : ¬ SessionPc.IsLeaving n (.leaving name) := fun e => hn (SessionPc.leaving.inj e).symm
    refine h.congr ?_ rfl Iff.rfl (fun _ => Iff.rfl) (Dict.any_drop_of_not hpc hne)
      (Dict.any_drop_of_not hpc id) (Dict.any_drop_of_not hpc nofun)
    show (routerView (s.hub.events ++ [.disconnected name])).get? n = _
    rw [view_disconnected, if_neg hn]; rfl

/-- The switch of one name is not that of another. -/
theorem switch_other {name : String} {b c : Bool} (hn : n ≠ name) :
    some (name, c) ≠ some (n, b) :=
  fun heq => hn (Prod.mk.inj (Option.some.inj heq)).1.symm

/-- While a machine is being turned off nothing is asked of its view. -/
theorem NameView.flipOff (h : NameView s n) {name : String} (hadmin : s.admin = none)
    (hon : name ∉ s.hub.disabled) :
    NameView { s with
      hub := { s.hub with disabled := insert name s.hub.disabled }
      admin := some (name, true) } n := by
  by_cases hn : n = name
  · subst hn
    refine ⟨fun _ hsw => absurd ⟨true, rfl⟩ hsw, h.gone, ?_, fun _ _ => ⟨true, rfl⟩, ?_⟩
    · intro _ hd
      exact absurd (Finset.mem_insert_self n s.hub.disabled) hd
    · intro b hb
      obtain rfl : true = b := (Prod.mk.inj (Option.some.inj hb)).2
      simp
  · refine h.congr rfl rfl (by simp [hn]) (fun b => ?_) Iff.rfl Iff.rfl Iff.rfl
    rw [hadmin]
    exact iff_of_false (switch_other hn) (Option.some_ne_none (n, b)).symm

/-- Nor while it is being turned on. -/
theorem NameView.flipOn (h : NameView s n) {name : String} (hadmin : s.admin = none)
    (hoff : name ∈ s.hub.disabled) :
    NameView { s with
      hub := { s.hub with disabled := s.hub.disabled.erase name }
      admin := some (name, false) } n := by
  by_cases hn : n = name
  · subst hn
    have hout : n ∉ s.hub.disabled.erase n := Finset.notMem_erase n s.hub.disabled
    refine ⟨fun hd => absurd hd hout, h.gone, fun _ _ hsw => absurd ⟨false, rfl⟩ hsw,
      fun _ hd => absurd hd hout, ?_⟩
    intro b hb
    obtain rfl : false = b := (Prod.mk.inj (Option.some.inj hb)).2
    simp
  · refine h.congr rfl rfl (by simp [hn]) (fun b => ?_) Iff.rfl Iff.rfl Iff.rfl
    rw [hadmin]
    exact iff_of_false (switch_other hn) (Option.some_ne_none (n, b)).symm

/-- With nobody registered there is nothing to tell. -/
theorem NameView.tellNobody (hwf : HubWf s) (h : NameView s n) {name : String} {b : Bool}
    (hadmin : s.admin = some (name, b)) (hgone : s.hub.clients.get? name = none) :
    NameView { s with admin := none } n := by
  by_cases hn : n = name
  · subst hn
    refine ⟨fun _ _ => h.gone hgone, h.gone, ?_, ?_, fun _ hb => nomatch hb⟩
    · intro hlive
      have := hwf.registered_of_live hlive
      rw [hgone] at this
      cases this
    · intro hann
      have := hwf.registered_of_announcing hann
      rw [hgone] at this
      cases this
  · refine h.congr rfl rfl Iff.rfl (fun b => ?_) Iff.rfl Iff.rfl Iff.rfl
    rw [hadmin]
    exact iff_of_false (Option.some_ne_none (n, b)).symm (switch_other hn)

/-- `Disconnected` of a machine turned off: none is about to send `Connected`. -/
theorem NameView.tellOff (h : NameView s n) {name : String} {e : Entry ServerMsg}
    (hadmin : s.admin = some (name, true)) (he : s.hub.clients.get? name = some e)
    (hok : Undisturbed s .tell) :
    NameView { s with
      hub := s.hub.emit (.disconnected name)
      admin := none
      posted := s.posted ++ [(.disconnected name, s.holder name)] } n := by
  by_cases hn : n = name
  · subst hn
    have hnone : (routerView (s.hub.events ++ [.disconnected n])).get? n = none := by
      rw [view_disconnected, if_pos rfl]
    have hd : n ∈ s.hub.disabled := (h.switching true hadmin).mpr rfl
    exact ⟨fun _ _ => .inl hnone, fun _ => .inl hnone, fun _ hon => absurd hd hon,
      fun hann => absurd hann (hok.tellOff hadmin), fun _ hb => nomatch hb⟩
  · refine h.congr ?_ rfl Iff.rfl (fun b => ?_) Iff.rfl Iff.rfl Iff.rfl
    · show (routerView (s.hub.events ++ [.disconnected name])).get? n = _
      rw [view_disconnected, if_neg hn]; rfl
    · rw [hadmin]
      exact iff_of_false (Option.some_ne_none (n, b)).symm (switch_other hn)

/-- `Connected` of one turned on again, with the monitors it is registered with. -/
theorem NameView.tellOn (h : NameView s n) {name : String} {e : Entry ServerMsg}
    (hadmin : s.admin = some (name, false)) (he : s.hub.clients.get? name = some e)
    (hok : Undisturbed s .tell) :
    NameView { s with
      hub := s.hub.emit (.connected name e.monitors)
      admin := none
      posted := s.posted ++ [(.connected name e.monitors, s.holder name)] } n := by
  by_cases hn : n = name
  · subst hn
    have hd : n ∉ s.hub.disabled := by
      rw [h.switching false hadmin]; exact Bool.false_ne_true
    have hquiet : ¬ s.Leaving n := hok.tellOn hadmin he
    refine ⟨fun hd' => absurd hd' hd, fun hg => ?_, fun _ _ _ => ⟨?_, hquiet⟩,
      fun _ hd' => absurd hd' hd, fun _ hb => nomatch hb⟩
    · rw [show s.hub.clients.get? n = none from hg] at he
      cases he
    · show (routerView (s.hub.events ++ [.connected n e.monitors])).get? n
        = (s.hub.clients.get? n).map (·.monitors)
      rw [view_connected, if_pos rfl, he]; rfl
  · refine h.congr ?_ rfl Iff.rfl (fun b => ?_) Iff.rfl Iff.rfl Iff.rfl
    · show (routerView (s.hub.events ++ [.connected name e.monitors])).get? n = _
      rw [view_connected, if_neg hn]; rfl
    · rw [hadmin]
      exact iff_of_false (Option.some_ne_none (n, b)).symm (switch_other hn)

end

/-- **One step keeps every name's part of the view.** -/
theorem nameView_step {s s' : HubRun} {l : HubLabel} {n : String} (hwf : HubWf s)
    (h : NameView s n) (hok : Undisturbed s l) (hs : HubStep s l s') : NameView s' n := by
  cases hs with
  | registerInsert hfree => exact NameView.registerInsert hwf h hfree
  | checkOff hpc hoff => exact h.checkOff hpc hoff
  | checkOn hpc hon => exact h.checkOn hpc hon
  | announce hpc => exact NameView.announce hwf h hpc hok
  | monitorsSame => exact h
  | monitorsNew hpc he => exact NameView.monitorsNew hwf h hpc he
  | remove hpc => exact NameView.remove hwf h hpc
  | sayGone hpc => exact h.sayGone hpc
  | flipSame => exact h
  | flipOff hadmin hon => exact h.flipOff hadmin hon
  | flipOn hadmin hoff => exact h.flipOn hadmin hoff
  | tellNobody hadmin hgone => exact NameView.tellNobody hwf h hadmin hgone
  | tellOff hadmin he => exact h.tellOff hadmin he hok
  | tellOn hadmin he => exact h.tellOn hadmin he hok
  | post hev =>
    refine h.congr ?_ rfl Iff.rfl (fun _ => Iff.rfl) Iff.rfl Iff.rfl Iff.rfl
    show (routerView _).get? n = _
    rw [Hub.emit_events, view_general _ hev]; rfl

/-- **In every undisturbed run the router's view of a name is what the hub has of it, or is to be.**
-/
theorem nameView_reach {s : HubRun} (hs : hubRuns.Reach Undisturbed s) (n : String) :
    NameView s n := by
  refine Lts.Reach.invariant (P := fun s => NameView s n) ?_ ?_ hs
  · rintro _ ⟨added, disabled, rfl⟩
    exact nameView_start added disabled n
  · intro _ _ _ hreach ih hok hl
    exact nameView_step (hubWf_reach hreach) ih hok (hubStep_of_step hl)

/-! ## Whose events come after whose

Events of an older holder come before those of a newer one, as long as nobody is on the way out.
-/

/-- Who holds a name is a session that does. -/
theorem HubRun.holder_spec {s : HubRun} {n : String} {sid : Nat} (h : s.holder n = some sid) :
    ∃ pc, s.sessions.get? sid = some pc ∧ pc.holds = some n := by
  rw [holder, Option.map_eq_some_iff] at h
  obtain ⟨⟨k, pc⟩, hfind, rfl⟩ := h
  have hp := List.find?_some hfind
  exact ⟨pc, (Dict.mem_entries_iff _ _ _).mp (List.mem_of_find?_eq_some hfind), by simpa using hp⟩

/-- Sessions are numbered in the order they register, and the events carry the numbers of the
sessions they speak of. -/
structure HubOrder (s : HubRun) : Prop where
  stamped : s.posted.map (·.1) = s.hub.events
  /-- No event of a session that is still to register. -/
  issued : ∀ ev k, (ev, some k) ∈ s.posted → k < s.nextSession
  /-- The session that holds a name, and one on its way out of it, is the latest the router
  has been told of under that name. -/
  latest : ∀ sid pc ms k, s.sessions.get? sid = some pc →
    (HubEvent.connected pc.name ms, some k) ∈ s.posted → k ≤ sid
  ordered : s.posted.Pairwise fun a b => ¬ StaleAfter a b

/-- At the start nothing was stamped and nothing was sent. -/
theorem hubOrder_start (added : List String) (disabled : Finset String) :
    HubOrder (HubRun.start added disabled) where
  stamped := rfl
  issued _ _ h := nomatch h
  latest _ _ _ _ _ h := nomatch h
  ordered := .nil

/-- A step that sends nothing: every session it leaves was there under the same name, or is
the next one. -/
theorem HubOrder.silent {s s' : HubRun} (h : HubOrder s) (hposted : s'.posted = s.posted)
    (hevents : s'.hub.events = s.hub.events) (hnext : s.nextSession ≤ s'.nextSession)
    (hsessions : ∀ sid pc, s'.sessions.get? sid = some pc →
      (∃ old, s.sessions.get? sid = some old ∧ old.name = pc.name) ∨ sid = s.nextSession) :
    HubOrder s' := by
  refine ⟨by rw [hposted, hevents]; exact h.stamped, ?_, ?_, by rw [hposted]; exact h.ordered⟩
  · intro ev k hk
    rw [hposted] at hk
    exact Nat.lt_of_lt_of_le (h.issued ev k hk) hnext
  · intro sid pc ms k hs hk
    rw [hposted] at hk
    rcases hsessions sid pc hs with ⟨old, hold, hname⟩ | rfl
    · exact h.latest sid old ms k hold (hname ▸ hk)
    · exact Nat.le_of_lt (h.issued _ k hk)

/-- A step that sends one event. A `Connected` is of the latest session of its name, and a
`Disconnected` of a session no older than any the router was told of. -/
theorem HubOrder.post {s s' : HubRun} (h : HubOrder s) {ev : HubEvent} {stamp : Option Nat}
    (hposted : s'.posted = s.posted ++ [(ev, stamp)])
    (hevents : s'.hub.events = s.hub.events ++ [ev]) (hnext : s'.nextSession = s.nextSession)
    (hsessions : ∀ sid pc, s'.sessions.get? sid = some pc →
      ∃ old, s.sessions.get? sid = some old ∧ old.name = pc.name)
    (hstamp : ∀ k, stamp = some k → k < s.nextSession)
    (hconnected : ∀ n ms k sid pc, ev = .connected n ms → stamp = some k →
      s.sessions.get? sid = some pc → pc.name = n → k ≤ sid)
    (hdisconnected : ∀ n ms k k', ev = .disconnected n → stamp = some k →
      (HubEvent.connected n ms, some k') ∈ s.posted → k' ≤ k) : HubOrder s' := by
  constructor
  · rw [hposted, hevents, List.map_append, h.stamped]; rfl
  · intro ev' k hk
    rw [hposted] at hk
    rw [hnext]
    rcases List.mem_append.mp hk with hk | hk
    · exact h.issued ev' k hk
    · exact hstamp k (Prod.mk.inj (List.mem_singleton.mp hk)).2.symm
  · intro sid pc ms k hs hk
    obtain ⟨old, hold, hname⟩ := hsessions sid pc hs
    rw [hposted] at hk
    rcases List.mem_append.mp hk with hk | hk
    · exact h.latest sid old ms k hold (hname ▸ hk)
    · obtain ⟨hev, hst⟩ := Prod.mk.inj (List.mem_singleton.mp hk)
      exact hconnected _ ms k sid old hev.symm hst.symm hold hname
  · rw [hposted, List.pairwise_append]
    refine ⟨h.ordered, List.pairwise_singleton _ _, ?_⟩
    rintro a ha b hb ⟨name, ms, newer, older, rfl, rfl, hlt⟩
    obtain ⟨hev, hst⟩ := Prod.mk.inj (List.mem_singleton.mp hb)
    exact absurd (hdisconnected name ms older newer hev.symm hst.symm ha) (Nat.not_le.mpr hlt)

/-- Moving a session on under its name gives every session an old one of the same name. -/
theorem HubRun.moved {s : HubRun} {sid : Nat} {old pc : SessionPc}
    (hold : s.sessions.get? sid = some old) (hname : old.name = pc.name) :
    ∀ sid' pc', (s.sessions.put sid pc).get? sid' = some pc' →
      ∃ old', s.sessions.get? sid' = some old' ∧ old'.name = pc'.name := by
  intro sid' pc' hs
  rw [Dict.get?_put] at hs
  by_cases hsid : sid' = sid
  · rw [if_pos hsid, Option.some.injEq] at hs
    subst hsid hs
    exact ⟨old, hold, hname⟩
  · rw [if_neg hsid] at hs
    exact ⟨pc', hs, rfl⟩

/-- While none is leaving it, a name has one session: the one that holds it. -/
theorem HubWf.only_holder {s : HubRun} (h : HubWf s) {n : String} {sid sid' : Nat}
    {pc pc' : SessionPc} (hquiet : ¬ s.Leaving n) (hs : s.sessions.get? sid = some pc)
    (hpc : pc.holds = some n) (hs' : s.sessions.get? sid' = some pc') (hname : pc'.name = n) :
    sid = sid' := by
  refine h.unique sid sid' pc pc' n hs hs' hpc ?_
  cases pc' with
  | checking m ms => exact congrArg some hname
  | announcing m ms => exact congrArg some hname
  | live m => exact congrArg some hname
  | leaving m => exact absurd ⟨sid', _, hs', congrArg _ hname⟩ hquiet

/-- A session holds no name but its own. -/
theorem SessionPc.name_of_holds {pc : SessionPc} {n : String} (h : pc.holds = some n) :
    pc.name = n := by
  cases pc <;> simp_all [holds, name]

/-- **One step keeps the events in the order of the sessions they speak of.** -/
theorem hubOrder_step {s s' : HubRun} {l : HubLabel} (hwf : HubWf s) (h : HubOrder s)
    (hok : Undisturbed s l) (hs : HubStep s l s') : HubOrder s' := by
  cases hs with
  -- steps that post nothing leave the order as it is; a new session stands at the end
  | @registerInsert name ms hfree =>
    refine h.silent rfl rfl (Nat.le_succ _) fun sid pc hs => ?_
    rw [Dict.get?_put] at hs
    by_cases hsid : sid = s.nextSession
    · exact .inr hsid
    · rw [if_neg hsid] at hs
      exact .inl ⟨pc, hs, rfl⟩
  | checkOff hpc hoff =>
    exact h.silent rfl rfl le_rfl fun _ _ hs => .inl (HubRun.moved hpc (by rfl) _ _ hs)
  | checkOn hpc hon =>
    exact h.silent rfl rfl le_rfl fun _ _ hs => .inl (HubRun.moved hpc (by rfl) _ _ hs)
  | @announce sid name ms hpc =>
    -- nobody of the name is on the way out, so the announcement is the last word
    have hquiet : ¬ s.Leaving name := hok.announce hpc
    refine h.post rfl rfl rfl (HubRun.moved hpc rfl) ?_ ?_ nofun
    · rintro _ ⟨⟩
      exact hwf.fresh _ _ hpc
    · rintro n ms' k sid' pc ⟨⟩ ⟨⟩ hs' hname
      exact Nat.le_of_eq (hwf.only_holder hquiet hpc rfl hs' hname)
  | monitorsSame => exact h
  | monitorsNew hpc he =>
    exact h.silent rfl rfl le_rfl fun _ _ hs => .inl (HubRun.moved hpc (by rfl) _ _ hs)
  | remove hpc =>
    exact h.silent rfl rfl le_rfl fun _ _ hs => .inl (HubRun.moved hpc (by rfl) _ _ hs)
  -- the farewell comes after everything the name ever said
  | @sayGone sid name hpc =>
    refine h.post rfl rfl rfl ?_ ?_ nofun ?_
    · intro sid' pc hs'
      rw [Dict.get?_drop] at hs'
      split at hs'
      · cases hs'
      · exact ⟨pc, hs', rfl⟩
    · rintro _ ⟨⟩
      exact hwf.fresh _ _ hpc
    · rintro n ms k k' ⟨⟩ ⟨⟩ hk'
      exact h.latest _ _ ms k' hpc hk'
  | flipSame => exact h
  | flipOff hadmin hon => exact h.silent rfl rfl le_rfl fun _ pc hs => .inl ⟨pc, hs, rfl⟩
  | flipOn hadmin hoff => exact h.silent rfl rfl le_rfl fun _ pc hs => .inl ⟨pc, hs, rfl⟩
  | tellNobody hadmin hgone => exact h.silent rfl rfl le_rfl fun _ pc hs => .inl ⟨pc, hs, rfl⟩
  -- the screen still has its holder, which stamps what the router is told
  | @tellOff name e hadmin he =>
    refine h.post rfl rfl rfl (fun _ pc hs => ⟨pc, hs, rfl⟩) ?_ nofun ?_
    · intro k hk
      obtain ⟨pc, hpc, -⟩ := HubRun.holder_spec hk
      exact hwf.fresh _ _ hpc
    · rintro n ms k k' ⟨⟩ hk hk'
      obtain ⟨pc, hpc, hholds⟩ := HubRun.holder_spec hk
      exact h.latest _ _ ms k' hpc (by rw [SessionPc.name_of_holds hholds]; exact hk')
  | @tellOn name e hadmin he =>
    -- as for an announcement, nobody of the name may be leaving
    have hquiet : ¬ s.Leaving name := hok.tellOn hadmin he
    refine h.post rfl rfl rfl (fun _ pc hs => ⟨pc, hs, rfl⟩) ?_ ?_ nofun
    · intro k hk
      obtain ⟨pc, hpc, -⟩ := HubRun.holder_spec hk
      exact hwf.fresh _ _ hpc
    · rintro n ms k sid pc ⟨⟩ hk hs' hname
      obtain ⟨pc', hpc', hholds⟩ := HubRun.holder_spec hk
      exact Nat.le_of_eq (hwf.only_holder hquiet hpc' hholds hs' hname)
  -- an event of another kind names no screen
  | @post ev hev =>
    exact h.post rfl rfl rfl (fun _ pc hs => ⟨pc, hs, rfl⟩) nofun
      (fun _ _ _ _ _ _ hk => nomatch hk) (fun _ _ _ _ _ hk => nomatch hk)

/-- **In every undisturbed run the events are sent in the order of the changes they tell of.** -/
theorem hubOrder_reach {s : HubRun} (hs : hubRuns.Reach Undisturbed s) : HubOrder s := by
  refine Lts.Reach.invariant (P := HubOrder) ?_ ?_ hs
  · rintro _ ⟨added, disabled, rfl⟩
    exact hubOrder_start added disabled
  · intro _ _ _ hreach ih hok hl
    exact hubOrder_step (hubWf_reach hreach) ih hok (hubStep_of_step hl)

/-! ## The router's view of a quiet hub

With nobody on the way, the view is the registry. -/

/-- With nobody on the way nobody is leaving. -/
theorem HubRun.Quiet.not_leaving {s : HubRun} (h : s.Quiet) (n : String) : ¬ s.Leaving n := by
  rintro ⟨sid, pc, hs, hpc⟩
  have hlive := h.1 sid pc hs
  rw [hpc] at hlive
  cases hlive

/-- With no call under way, every name's part of the view is what the registry says of it. -/
theorem view_expected {s : HubRun} (hwf : HubWf s) {n : String} (hv : NameView s n)
    (hquiet : s.Quiet) : s.view n = s.expected n := by
  have hnot := hquiet.not_leaving n
  have hidle : ¬ s.Switching n := by
    rintro ⟨b, hb⟩
    rw [hquiet.2] at hb
    cases hb
  unfold HubRun.expected
  by_cases hd : n ∈ s.hub.disabled
  · rw [if_pos hd]
    exact (hv.off hd hidle).resolve_right hnot
  · rw [if_neg hd]
    cases he : s.hub.clients.get? n with
    | none => exact (hv.gone he).resolve_right hnot
    | some e =>
      -- an entry has its session, and the session is live
      obtain ⟨sid, pc, hpc, hholds⟩ := hwf.session n (by rw [he]; rfl)
      have hlive : pc = .live n := SessionPc.name_of_holds hholds ▸ hquiet.1 sid pc hpc
      rw [← he]
      exact (hv.on ⟨sid, pc, hpc, hlive⟩ hd hidle).1

/-- **In every undisturbed run the router's view is the registry without the screens turned
off, once no call is under way, and no event of an old session overtakes a newer one's.** -/
theorem hub_view_agrees {s : HubRun} (hs : hubRuns.Reach Undisturbed s) : HubAgreement s := by
  have horder := hubOrder_reach hs
  exact ⟨fun hquiet n => view_expected (hubWf_reach hs) (nameView_reach hs n) hquiet,
    horder.stamped, horder.ordered⟩

/-- A client registers, is turned off and on again, changes its monitors, reconnects, and its
old session is gone before the new one is announced. -/
theorem hub_view_agrees_reconnect :
    ∃ s, hubRuns.Reach Undisturbed s ∧ s.Quiet ∧ s.view "a" = some [⟨0, 0, 640, 480⟩]
      ∧ HubAgreement s := by
  let screen : Rect := ⟨0, 0, 1920, 1080⟩
  let smaller : Rect := ⟨0, 0, 640, 480⟩
  let labels : List HubLabel :=
    [.registerInsert "a" [screen], .check 0, .announce 0, .flip "a" true, .tell, .flip "a" false,
      .tell, .setMonitorsEntry 0 [smaller], .check 0, .announce 0, .remove 0,
      .registerInsert "a" [smaller], .check 1, .sayGone 0, .announce 1]
  have hsome : (hubRuns.exec Undisturbed (HubRun.start [] ∅) labels).isSome = true := by decide
  obtain ⟨s, hs⟩ := Option.isSome_iff_exists.mp hsome
  have hreach : hubRuns.Reach Undisturbed s := Lts.reach_of_exec ⟨[], ∅, rfl⟩ hs
  have hend : (hubRuns.exec Undisturbed (HubRun.start [] ∅) labels).all fun s =>
      decide (s.Quiet ∧ s.view "a" = some [smaller]) := by decide
  rw [hs] at hend
  obtain ⟨hquiet, hview⟩ := of_decide_eq_true hend
  exact ⟨s, hreach, hquiet, hview, hub_view_agrees hreach⟩

/-- The old session of "a" has removed its entry when "a" connects again, and sends its
`Disconnected` after the new session's `Connected`: "a" is registered and on, and the router
does not know it. -/
theorem stale_disconnected_hides_client : ¬ ∀ s, hubRuns.Reachable s → HubAgreement s := by
  let screen : Rect := ⟨0, 0, 1920, 1080⟩
  let labels : List HubLabel :=
    [.registerInsert "a" [screen], .check 0, .announce 0, .remove 0,
      .registerInsert "a" [screen], .check 1, .announce 1, .sayGone 0]
  intro hall
  have hsome : (hubRuns.run (HubRun.start [] ∅) labels).isSome = true := by decide
  obtain ⟨s, hs⟩ := Option.isSome_iff_exists.mp hsome
  have hend : (hubRuns.run (HubRun.start [] ∅) labels).all fun s =>
      decide (s.Quiet ∧ s.view "a" = none ∧ s.expected "a" = some [screen]) := by decide
  rw [hs] at hend
  obtain ⟨hquiet, hview, hexpected⟩ := of_decide_eq_true hend
  have hagree := (hall s (Lts.reachable_of_run ⟨[], ∅, rfl⟩ hs)).settled hquiet "a"
  rw [hview, hexpected] at hagree
  cases hagree

end GeserDesk
