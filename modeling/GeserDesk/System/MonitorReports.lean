import GeserDesk.Server.Handshake
import GeserDesk.System.HubView

/-!
# From a client's monitors to the router

A client looks at its monitors every few seconds and tells the server of a list that is not the one
it told last (`MonitorWatch` of `geserdesk-client/src/net.rs`); the session takes what arrives, makes
it safe and calls `set_monitors`. The hub runs as in `HubRuns`, lock section by lock section, with
other sessions and the admin thread between.

* **`registry_follows_client`**: in every run, once what a client sent has arrived, the registry has
  what the client told last.
* **`router_follows_client`**: and so has the router, in an undisturbed run with no call under way.
-/

namespace GeserDesk

/-! ## The client -/

/-- Build from a monitor list; an empty list yields a placeholder monitor. -/
def ScreenInfo.fromMonitors (name : String) (monitors : List Rect) (cursor : Point) : ScreenInfo :=
  let monitors := if monitors = [] then [⟨0, 0, 1920, 1080⟩] else monitors
  { name := name
    -- the list is not empty, so there is a union
    bounds := (Rect.unionAll monitors).getD ⟨0, 0, 0, 0⟩
    monitors := monitors
    cursor := cursor }

/-- `ClientConfig::screen_info`, and what a `ScreenChanged` says. -/
def screenInfo (name : String) (monitors : List Rect) : ScreenInfo :=
  .fromMonitors name monitors (((Rect.unionAll monitors).map Rect.center).getD ⟨0, 0⟩)

/-- The last monitor list told to the server. -/
structure MonitorWatch where
  name : String
  reported : List Rect

/-- A `ScreenChanged` to send if the monitors changed since last time. -/
def MonitorWatch.check (w : MonitorWatch) (now : Option (List Rect)) :
    MonitorWatch × Option ScreenInfo :=
  match now with
  | none => (w, none)
  | some now =>
    if now = [] ∨ now = w.reported then (w, none)
    else ({ w with reported := now }, some (screenInfo w.name now))

/-! ## The run -/

/-- One session as far as monitors go, with what is on its way to the server. -/
structure Reporting where
  watch : MonitorWatch
  sent : List ScreenInfo := []
  /-- What the server took last (bookkeeping only). -/
  taken : ScreenInfo

/-- The last of what a client has told. -/
def Reporting.last (c : Reporting) : ScreenInfo := c.sent.getLast?.getD c.taken

structure MonitorRun where
  hub : HubRun
  clients : Dict Nat Reporting := ∅

inductive MonitorLabel where
  | connect (name : String) (monitors : List Rect)
  /-- The client looks; the system may have no answer. -/
  | looks (sid : Nat) (now : Option (List Rect))
  | arrives (sid : Nat)
  | hub (l : HubLabel)

/-- What the hub does without a list from a client. -/
def HubLabel.bringsMonitors : HubLabel → Bool
  | .registerInsert _ _ | .setMonitorsEntry _ _ => true
  | _ => false

namespace MonitorRun

/-- What is called on the hub. -/
def calls (s : MonitorRun) : MonitorLabel → Option HubLabel
  | .connect name monitors =>
    some (.registerInsert name (sanitizeMonitors (screenInfo name monitors)))
  | .looks _ _ => none
  | .arrives sid =>
    ((s.clients.get? sid).bind (·.sent.head?)).map fun info =>
      .setMonitorsEntry sid (sanitizeMonitors info)
  | .hub l => some l

def step (s : MonitorRun) : MonitorLabel → Option MonitorRun
  | .connect name monitors => do
    let screen := screenInfo name monitors
    let hub ← s.hub.step (.registerInsert name (sanitizeMonitors screen))
    return { hub := hub
             clients := s.clients.put s.hub.nextSession
               { watch := ⟨name, screen.monitors⟩, taken := screen } }
  | .looks sid now => do
    let c ← s.clients.get? sid
    let (watch, msg) := c.watch.check now
    return { s with
      clients := s.clients.put sid { c with watch := watch, sent := c.sent ++ msg.toList } }
  | .arrives sid => do
    let c ← s.clients.get? sid
    let info ← c.sent.head?
    let hub ← s.hub.step (.setMonitorsEntry sid (sanitizeMonitors info))
    return { hub := hub
             clients := s.clients.put sid { c with sent := c.sent.tail, taken := info } }
  | .hub l =>
    if l.bringsMonitors then none
    else do
      let hub ← s.hub.step l
      return { s with hub := hub }

end MonitorRun

def monitorRuns : Lts MonitorRun MonitorLabel where
  init s := ∃ added disabled, s = ⟨HubRun.start added disabled, ∅⟩
  step := MonitorRun.step

/-! ## What is made of a list -/

/-- Only monitors and bounds are looked at. -/
theorem sanitizeMonitors_congr {a b : ScreenInfo} (hm : a.monitors = b.monitors)
    (hb : a.bounds = b.bounds) : sanitizeMonitors a = sanitizeMonitors b := by
  unfold sanitizeMonitors
  rw [hm, hb]

/-- Telling again what was told is no other list. -/
theorem screenInfo_again (name : String) (monitors : List Rect) :
    sanitizeMonitors (screenInfo name (screenInfo name monitors).monitors)
      = sanitizeMonitors (screenInfo name monitors) := by
  have hne : (screenInfo name monitors).monitors ≠ [] := by
    show (if monitors = [] then _ else monitors) ≠ []
    split
    · exact List.cons_ne_nil _ _
    · assumption
  have hsame : (screenInfo name (screenInfo name monitors).monitors).monitors
      = (screenInfo name monitors).monitors := if_neg hne
  refine sanitizeMonitors_congr hsame ?_
  show (Rect.unionAll (screenInfo name (screenInfo name monitors).monitors).monitors).getD _ = _
  rw [hsame]
  rfl

/-- An ordinary list is taken as it is. -/
theorem sanitizeMonitors_sane (name : String) {monitors : List Rect} (hne : monitors ≠ [])
    (hsane : ∀ r ∈ monitors, saneMonitor r = true) (hlen : monitors.length ≤ maxMonitors) :
    sanitizeMonitors (screenInfo name monitors) = monitors := by
  have hlist : (screenInfo name monitors).monitors = monitors := if_neg hne
  unfold sanitizeMonitors
  rw [hlist, List.filter_eq_self.mpr hsane, List.take_of_length_le hlen]
  cases monitors with
  | nil => exact absurd rfl hne
  | cons r rest => rfl

/-! ## What a call leaves

What the hub has for a name after each call. -/

/-- What the registry has of a client's monitors. -/
def HubRun.monitorsOf (s : HubRun) (name : String) : Option (List Rect) :=
  (s.hub.clients.get? name).map (·.monitors)

/-- A session that holds a name after another moved on held it before. -/
theorem session_of_put {m : Dict Nat SessionPc} {sid sid₀ : Nat} {old new pc' : SessionPc}
    {name : String} (hold : m.get? sid₀ = some old)
    (hpc' : (m.put sid₀ new).get? sid = some pc') (hholds : pc'.holds = some name)
    (hsame : new.holds = some name → old.holds = some name) :
    ∃ pc, m.get? sid = some pc ∧ pc.holds = some name := by
  rw [Dict.get?_put] at hpc'
  split_ifs at hpc' with hsid
  · obtain rfl := Option.some.inj hpc'
    exact ⟨old, hsid ▸ hold, hsame hholds⟩
  · exact ⟨pc', hpc', hholds⟩

/-- A call that brings no list leaves every session its monitors. -/
theorem monitorsOf_kept {s s' : HubRun} {l : HubLabel} (hwf : HubWf s) (h : s.step l = some s')
    (hl : l.bringsMonitors = false) {sid : Nat} {pc' : SessionPc} {name : String}
    (hpc' : s'.sessions.get? sid = some pc') (hholds : pc'.holds = some name) :
    s'.monitorsOf name = s.monitorsOf name
      ∧ ∃ pc, s.sessions.get? sid = some pc ∧ pc.holds = some name := by
  unfold HubRun.monitorsOf
  cases hubStep_of_step h with
  | registerInsert hfree => cases hl
  | monitorsSame => cases hl
  | monitorsNew hpc he => cases hl
  | checkOff hpc hoff => exact ⟨rfl, session_of_put hpc hpc' hholds id⟩
  | checkOn hpc hon => exact ⟨rfl, session_of_put hpc hpc' hholds id⟩
  | announce hpc => exact ⟨rfl, session_of_put hpc hpc' hholds id⟩
  | @remove sid₀ name₀ hpc =>
    obtain ⟨pc, hsid, hpc_holds⟩ := session_of_put hpc hpc' hholds fun h => by cases h
    refine ⟨?_, pc, hsid, hpc_holds⟩
    -- no other session holds the name that goes
    have hne : name ≠ name₀ := by
      rintro rfl
      obtain rfl := hwf.unique sid sid₀ _ _ name hsid hpc hpc_holds rfl
      rw [Dict.get?_put, if_pos rfl] at hpc'
      obtain rfl := Option.some.inj hpc'
      cases hholds
    show ((s.hub.clients.drop name₀).get? name).map _ = _
    rw [Dict.get?_drop, if_neg hne]
  | sayGone hpc =>
    rw [Dict.get?_drop] at hpc'
    split_ifs at hpc'
    exact ⟨rfl, pc', hpc', hholds⟩
  | flipSame => exact ⟨rfl, pc', hpc', hholds⟩
  | flipOff hadmin hon => exact ⟨rfl, pc', hpc', hholds⟩
  | flipOn hadmin hoff => exact ⟨rfl, pc', hpc', hholds⟩
  | tellNobody hadmin hgone => exact ⟨rfl, pc', hpc', hholds⟩
  | tellOff hadmin he => exact ⟨rfl, pc', hpc', hholds⟩
  | tellOn hadmin he => exact ⟨rfl, pc', hpc', hholds⟩
  | post hev => exact ⟨rfl, pc', hpc', hholds⟩

/-- A list that a session brings is the registry's from there on. -/
theorem monitorsOf_brought {s s' : HubRun} {sid : Nat} {ms : List Rect} (hwf : HubWf s)
    (h : s.step (.setMonitorsEntry sid ms) = some s') :
    ∃ name, s.sessions.get? sid = some (.live name) ∧ s'.monitorsOf name = some ms
      ∧ (∀ other, other ≠ name → s'.monitorsOf other = s.monitorsOf other)
      ∧ ∀ sid' pc', s'.sessions.get? sid' = some pc' →
        ∃ pc, s.sessions.get? sid' = some pc ∧ pc.holds = pc'.holds := by
  simp only [HubRun.step, Hub.setMonitorsEntry] at h
  split at h
  · next name hpc =>
    refine ⟨name, hpc, ?_⟩
    have hthere := hwf.entry sid _ name hpc rfl
    obtain ⟨e, he⟩ := Option.isSome_iff_exists.mp hthere
    simp only [he] at h
    by_cases hsame : e.monitors = ms
    · obtain rfl : s = s' := by simpa [hsame] using h
      refine ⟨?_, fun _ _ => rfl, fun sid' pc' hpc' => ⟨pc', hpc', rfl⟩⟩
      rw [HubRun.monitorsOf, he, Option.map_some, hsame]
    · rw [if_neg hsame, if_pos rfl] at h
      obtain rfl := Option.some.inj h
      unfold HubRun.monitorsOf
      refine ⟨by simp, fun other hother => by simp [hother], fun sid' pc' hpc' => ?_⟩
      rw [Dict.get?_put] at hpc'
      split_ifs at hpc' with hsid
      · obtain rfl := Option.some.inj hpc'
        exact ⟨.live name, hsid ▸ hpc, rfl⟩
      · exact ⟨pc', hpc', rfl⟩
  · cases h

/-! ## The client and its entry

The entry is what the client looked at last, once its report has come. -/

/-- What is said of a session's client: what it told last is what it keeps as told, and the
registry has what was taken from it last. -/
structure MonitorInv (s : MonitorRun) : Prop where
  wf : HubWf s.hub
  last : ∀ sid c, s.clients.get? sid = some c →
    sanitizeMonitors c.last = sanitizeMonitors (screenInfo c.watch.name c.watch.reported)
  entry : ∀ sid c pc name, s.clients.get? sid = some c → s.hub.sessions.get? sid = some pc →
    pc.holds = some name → s.hub.monitorsOf name = some (sanitizeMonitors c.taken)

/-- A client that looks has told of what it keeps as told. -/
theorem last_looks {c : Reporting} (now : Option (List Rect))
    (h : sanitizeMonitors c.last = sanitizeMonitors (screenInfo c.watch.name c.watch.reported)) :
    let c' : Reporting :=
      { c with watch := (c.watch.check now).1, sent := c.sent ++ (c.watch.check now).2.toList }
    sanitizeMonitors c'.last
      = sanitizeMonitors (screenInfo c'.watch.name c'.watch.reported) := by
  cases now with
  | none => simpa [MonitorWatch.check, Reporting.last] using h
  | some now =>
    by_cases hsame : now = [] ∨ now = c.watch.reported
    · simpa [MonitorWatch.check, hsame, Reporting.last] using h
    · simp [MonitorWatch.check, hsame, Reporting.last]

/-- What arrives was told before, and what was told last stays the last. -/
theorem last_arrives {c : Reporting} {info : ScreenInfo} (h : c.sent.head? = some info) :
    Reporting.last { c with sent := c.sent.tail, taken := info } = c.last := by
  cases hsent : c.sent with
  | nil => simp [hsent] at h
  | cons first rest =>
    obtain rfl : first = info := by simpa [hsent] using h
    unfold Reporting.last
    rw [hsent]
    cases rest with
    | nil => rfl
    | cons next rest => simp [List.getLast?_eq_some_getLast]

/-- A step of the reports is a step of the hub, or leaves it alone. -/
theorem step_calls {s s' : MonitorRun} {l : MonitorLabel} (h : s.step l = some s') :
    (∀ call, s.calls l = some call → s.hub.step call = some s'.hub)
      ∧ (s.calls l = none → s'.hub = s.hub) := by
  cases l with
  | connect name monitors =>
    simp only [MonitorRun.step, Option.bind_eq_bind, Option.bind_eq_some_iff] at h
    obtain ⟨hub, hhub, heq⟩ := h
    obtain rfl := Option.some.inj heq
    refine ⟨fun call hcall => ?_, nofun⟩
    obtain rfl := Option.some.inj hcall
    exact hhub
  | looks sid now =>
    simp only [MonitorRun.step, Option.bind_eq_bind, Option.bind_eq_some_iff] at h
    obtain ⟨c, -, heq⟩ := h
    obtain rfl := Option.some.inj heq
    exact ⟨nofun, fun _ => rfl⟩
  | arrives sid =>
    simp only [MonitorRun.step, Option.bind_eq_bind, Option.bind_eq_some_iff] at h
    obtain ⟨c, hc, info, hinfo, hub, hhub, heq⟩ := h
    obtain rfl := Option.some.inj heq
    have hcalls : s.calls (.arrives sid) = some (.setMonitorsEntry sid (sanitizeMonitors info)) := by
      simp [MonitorRun.calls, hc, hinfo]
    rw [hcalls]
    refine ⟨fun call hcall => ?_, nofun⟩
    obtain rfl := Option.some.inj hcall
    exact hhub
  | hub l =>
    simp only [MonitorRun.step, Option.bind_eq_bind] at h
    split_ifs at h
    obtain ⟨hub, hhub, heq⟩ := Option.bind_eq_some_iff.mp h
    obtain rfl := Option.some.inj heq
    refine ⟨fun call hcall => ?_, nofun⟩
    obtain rfl := Option.some.inj hcall
    exact hhub

/-- **Every step keeps what the hub has of a client in step with what the client has said.** -/
theorem monitorInv_step {s s' : MonitorRun} {l : MonitorLabel} (h : MonitorInv s)
    (hl : s.step l = some s') : MonitorInv s' := by
  have hwf : HubWf s'.hub := by
    obtain ⟨hsome, hnone⟩ := step_calls hl
    cases hcall : s.calls l with
    | none =>
      rw [hnone hcall]
      exact h.wf
    | some call => exact hubWf_step h.wf (hubStep_of_step (hsome call hcall))
  cases l with
  | connect name monitors =>
    simp only [MonitorRun.step, Option.bind_eq_bind, Option.bind_eq_some_iff] at hl
    obtain ⟨hub, hhub, heq⟩ := hl
    obtain rfl := Option.some.inj heq
    refine ⟨hwf, fun sid c hc => ?_, fun sid c pc other hc hpc hholds => ?_⟩
    · rw [Dict.get?_put] at hc
      split_ifs at hc with hsid
      · obtain rfl := Option.some.inj hc
        exact (screenInfo_again name monitors).symm
      · exact h.last sid c hc
    · cases hubStep_of_step hhub with
      | registerInsert hfree =>
        unfold HubRun.monitorsOf
        rw [Dict.get?_put] at hc hpc
        by_cases hsid : sid = s.hub.nextSession
        · rw [if_pos hsid] at hc hpc
          obtain rfl := Option.some.inj hc
          obtain rfl := Option.some.inj hpc
          obtain rfl : name = other := Option.some.inj hholds
          simp
        · rw [if_neg hsid] at hc hpc
          -- the name that is taken was free, so it is no other session's
          have hne : other ≠ name := by
            rintro rfl
            have hthere := h.wf.entry sid pc other hpc hholds
            rw [hfree] at hthere
            cases hthere
          rw [Dict.get?_put, if_neg hne]
          exact h.entry sid c pc other hc hpc hholds
  | looks sid now =>
    simp only [MonitorRun.step, Option.bind_eq_bind, Option.bind_eq_some_iff] at hl
    obtain ⟨c, hc, heq⟩ := hl
    obtain rfl := Option.some.inj heq
    refine ⟨hwf, fun sid' c' hc' => ?_, fun sid' c' pc name hc' hpc hholds => ?_⟩
    · rw [Dict.get?_put] at hc'
      split_ifs at hc' with hsid
      · obtain rfl := Option.some.inj hc'
        exact last_looks now (h.last sid c hc)
      · exact h.last sid' c' hc'
    · rw [Dict.get?_put] at hc'
      split_ifs at hc' with hsid
      · obtain rfl := Option.some.inj hc'
        exact h.entry sid' c pc name (hsid ▸ hc) hpc hholds
      · exact h.entry sid' c' pc name hc' hpc hholds
  | arrives sid =>
    simp only [MonitorRun.step, Option.bind_eq_bind, Option.bind_eq_some_iff] at hl
    obtain ⟨c, hc, info, hinfo, hub, hhub, heq⟩ := hl
    obtain rfl := Option.some.inj heq
    obtain ⟨name, hlive, hbrought, hothers, hsessions⟩ := monitorsOf_brought h.wf hhub
    refine ⟨hwf, fun sid' c' hc' => ?_, fun sid' c' pc' other hc' hpc' hholds => ?_⟩
    · rw [Dict.get?_put] at hc'
      split_ifs at hc' with hsid
      · obtain rfl := Option.some.inj hc'
        exact (last_arrives hinfo).symm ▸ h.last sid c hc
      · exact h.last sid' c' hc'
    · obtain ⟨pc, hpc, hsame⟩ := hsessions sid' pc' hpc'
      rw [← hsame] at hholds
      rw [Dict.get?_put] at hc'
      by_cases hsid : sid' = sid
      · rw [if_pos hsid] at hc'
        obtain rfl := Option.some.inj hc'
        rw [hsid, hlive, Option.some.injEq] at hpc
        obtain rfl : name = other := by
          rw [← hpc] at hholds
          exact Option.some.inj hholds
        exact hbrought
      · rw [if_neg hsid] at hc'
        have hne : other ≠ name := by
          rintro rfl
          exact hsid (h.wf.unique sid' sid _ _ other hpc hlive hholds rfl)
        exact (hothers other hne).trans (h.entry sid' c' pc other hc' hpc hholds)
  | hub l =>
    simp only [MonitorRun.step, Option.bind_eq_bind] at hl
    split_ifs at hl with hbrings
    obtain ⟨hub, hhub, heq⟩ := Option.bind_eq_some_iff.mp hl
    obtain rfl := Option.some.inj heq
    refine ⟨hwf, h.last, fun sid c pc' name hc hpc' hholds => ?_⟩
    obtain ⟨hkept, pc, hpc, hpc_holds⟩ :=
      monitorsOf_kept h.wf hhub (by simpa using hbrings) hpc' hholds
    exact hkept.trans (h.entry sid c pc name hc hpc hpc_holds)

/-- The invariant holds in every state reached. -/
theorem monitorInv_reach {ok : MonitorRun → MonitorLabel → Prop} {s : MonitorRun}
    (hs : monitorRuns.Reach ok s) : MonitorInv s := by
  refine Lts.Reach.invariant (P := MonitorInv) ?_ ?_ hs
  · rintro _ ⟨added, disabled, rfl⟩
    constructor
    · exact hubWf_start added disabled
    · intro sid c hc
      rw [Dict.get?_empty] at hc
      cases hc
    · intro sid c pc name hc
      rw [Dict.get?_empty] at hc
      cases hc
  · exact fun _ _ _ _ ih _ hl => monitorInv_step ih hl

/-- Once all that was sent has arrived, the registry has the client's monitors. -/
theorem MonitorInv.arrived {s : MonitorRun} (h : MonitorInv s) {sid : Nat} {c : Reporting}
    {pc : SessionPc} {name : String} (hc : s.clients.get? sid = some c)
    (hpc : s.hub.sessions.get? sid = some pc) (hholds : pc.holds = some name)
    (harrived : c.sent = []) : s.hub.monitorsOf name
      = some (sanitizeMonitors (screenInfo c.watch.name c.watch.reported)) := by
  have htaken : c.last = c.taken := by
    unfold Reporting.last
    rw [harrived]
    rfl
  rw [h.entry sid c pc name hc hpc hholds, ← htaken, h.last sid c hc]

/-- **The registry follows the client.** In every run, with any number of sessions and the admin
thread between: once what a client sent has arrived, the registry has the list it told last, made
safe, and just that list if it is an ordinary one. -/
theorem registry_follows_client {s : MonitorRun} (hs : monitorRuns.Reachable s) {sid : Nat}
    {c : Reporting} {pc : SessionPc} {name : String} (hc : s.clients.get? sid = some c)
    (hpc : s.hub.sessions.get? sid = some pc) (hholds : pc.holds = some name)
    (harrived : c.sent = []) :
    s.hub.monitorsOf name
        = some (sanitizeMonitors (screenInfo c.watch.name c.watch.reported))
      ∧ (c.watch.reported ≠ [] → (∀ r ∈ c.watch.reported, saneMonitor r = true) →
        c.watch.reported.length ≤ maxMonitors →
          s.hub.monitorsOf name = some c.watch.reported) := by
  have hentry := (monitorInv_reach hs).arrived hc hpc hholds harrived
  refine ⟨hentry, fun hne hsane hlen => ?_⟩
  rw [hentry, sanitizeMonitors_sane c.watch.name hne hsane hlen]

/-- A client whose second screen is plugged in while it is connected. -/
def pluggedIn : List MonitorLabel :=
  [.connect "laptop" [⟨0, 0, 1920, 1080⟩], .hub (.check 0), .hub (.announce 0),
    .looks 0 (some [⟨0, 0, 1920, 1080⟩]), .looks 0 none,
    .looks 0 (some [⟨0, 0, 1920, 1080⟩, ⟨1920, 0, 1280, 1024⟩]), .arrives 0, .hub (.check 0),
    .hub (.announce 0)]

/-- A laptop that plugs a second monitor in. -/
theorem registry_follows_client_pluggedIn : ∃ s, monitorRuns.Reachable s
    ∧ s.hub.monitorsOf "laptop" = some [⟨0, 0, 1920, 1080⟩, ⟨1920, 0, 1280, 1024⟩] := by
  let start : MonitorRun := { hub := HubRun.start [] ∅ }
  have hsome : (monitorRuns.exec (fun _ _ => True) start pluggedIn).isSome = true := by decide
  obtain ⟨s, hs⟩ := Option.isSome_iff_exists.mp hsome
  have hreach : monitorRuns.Reachable s := Lts.reach_of_exec ⟨[], ∅, rfl⟩ hs
  have hend : (monitorRuns.exec (fun _ _ => True) start pluggedIn).all fun s =>
      decide ((s.clients.get? 0).map (fun c => (c.sent, c.watch.reported))
          = some ([], [⟨0, 0, 1920, 1080⟩, ⟨1920, 0, 1280, 1024⟩])
        ∧ s.hub.sessions.get? 0 = some (.live "laptop")) := by decide
  rw [hs] at hend
  obtain ⟨hclient, hsession⟩ := of_decide_eq_true hend
  obtain ⟨c, hc, hkept⟩ := Option.map_eq_some_iff.mp hclient
  obtain ⟨hsent, hreported⟩ := Prod.mk.inj hkept
  have hlist := (registry_follows_client hreach hc hsession rfl hsent).2
  rw [hreported] at hlist
  exact ⟨s, hreach, hlist (by decide) (by decide) (by decide)⟩

/-! ## The router -/

/-- What is called on the hub is called undisturbed. -/
def MonitorRun.Undisturbed (s : MonitorRun) (l : MonitorLabel) : Prop :=
  ∀ call, s.calls l = some call → GeserDesk.Undisturbed s.hub call

instance (s : MonitorRun) (l : MonitorLabel) : Decidable (s.Undisturbed l) :=
  decidable_of_iff ((s.calls l).all fun call => decide (GeserDesk.Undisturbed s.hub call)) (by
    unfold MonitorRun.Undisturbed
    cases s.calls l <;> simp)

/-- The hub goes through a run of its own. -/
theorem hub_reach {s : MonitorRun} (hs : monitorRuns.Reach MonitorRun.Undisturbed s) :
    hubRuns.Reach Undisturbed s.hub := by
  refine Lts.Reach.invariant (P := fun s => hubRuns.Reach Undisturbed s.hub) ?_ ?_ hs
  · rintro _ ⟨added, disabled, rfl⟩
    exact .init ⟨added, disabled, rfl⟩
  · intro s l s' _ ih hok hl
    obtain ⟨hsome, hnone⟩ := step_calls hl
    cases hcall : s.calls l with
    | none =>
      rw [hnone hcall]
      exact ih
    | some call => exact .step ih (hok call hcall) (hsome call hcall)

/-- **The router follows the client.** In an undisturbed run, with no call on the hub under way and
everything arrived, the router has a client that is not turned off with the monitors it told last,
made safe. -/
theorem router_follows_client {s : MonitorRun}
    (hs : monitorRuns.Reach MonitorRun.Undisturbed s) (hquiet : s.hub.Quiet) {sid : Nat}
    {c : Reporting} {pc : SessionPc} {name : String} (hc : s.clients.get? sid = some c)
    (hpc : s.hub.sessions.get? sid = some pc) (hholds : pc.holds = some name)
    (harrived : c.sent = []) (hon : name ∉ s.hub.hub.disabled) :
    s.hub.view name = some (sanitizeMonitors (screenInfo c.watch.name c.watch.reported)) := by
  have hinv := monitorInv_reach hs
  have hview := view_expected hinv.wf (nameView_reach (hub_reach hs) name) hquiet
  rw [hview, HubRun.expected, if_neg hon]
  exact hinv.arrived hc hpc hholds harrived

/-- The router hears of the second monitor. -/
theorem router_follows_client_pluggedIn : ∃ s, monitorRuns.Reach MonitorRun.Undisturbed s
    ∧ s.hub.Quiet
    ∧ s.hub.view "laptop" = some [⟨0, 0, 1920, 1080⟩, ⟨1920, 0, 1280, 1024⟩] := by
  let start : MonitorRun := { hub := HubRun.start [] ∅ }
  -- a second monitor is plugged in, and the report has come
  have hsome : (monitorRuns.exec MonitorRun.Undisturbed start pluggedIn).isSome = true := by decide
  obtain ⟨s, hs⟩ := Option.isSome_iff_exists.mp hsome
  have hreach : monitorRuns.Reach MonitorRun.Undisturbed s := Lts.reach_of_exec ⟨[], ∅, rfl⟩ hs
  have hend : (monitorRuns.exec MonitorRun.Undisturbed start pluggedIn).all fun s =>
      decide ((s.clients.get? 0).map (fun c => (c.sent, c.watch.name, c.watch.reported))
          = some ([], "laptop", [⟨0, 0, 1920, 1080⟩, ⟨1920, 0, 1280, 1024⟩])
        ∧ s.hub.sessions.get? 0 = some (.live "laptop") ∧ s.hub.Quiet
        ∧ "laptop" ∉ s.hub.hub.disabled) := by decide
  rw [hs] at hend
  obtain ⟨hclient, hsession, hquiet, hon⟩ := of_decide_eq_true hend
  obtain ⟨c, hc, hkept⟩ := Option.map_eq_some_iff.mp hclient
  obtain ⟨hsent, hrest⟩ := Prod.mk.inj hkept
  obtain ⟨hname, hreported⟩ := Prod.mk.inj hrest
  -- so the hub's view is what the client reported
  have hview := router_follows_client hreach hquiet hc hsession rfl hsent hon
  rw [hname, hreported] at hview
  exact ⟨s, hreach, hquiet, hview⟩

end GeserDesk
