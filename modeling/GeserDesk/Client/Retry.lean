import GeserDesk.Proto.Message
import GeserDesk.Server.FingerprintText

/-!
# Keeping a client connected

`connect_with_status` in `geserdesk-client/src/net.rs`: connect, run until the link drops, wait,
try again. How an attempt ends and how long it takes is anything at all here; what `client_handshake`
makes of the server's answer is in `System/Greeting.lean`, and what `connect_observed` does about
certificates in `Client/FirstUse.lean`.

* **`reconnects`**: the loop, which carries a delay and a list of monitors from pass to pass, does
  what is said of a pass by the attempts before it alone: it stops at the first error retrying
  cannot fix, waits twice as long after every attempt since the last connection that lasted, and
  reports the monitors it was last told of.
-/

namespace GeserDesk

/-! ## Why an attempt failed -/

/-- `ConnectError`. What other libraries say of their errors is text. -/
inductive ConnectFailure where
  | connect (server : String) (source : String)
  | codec (text : String)
  | incompatible (version : Version)
  | rejected (reason : String)
  | unexpected (what : String)
  | tls (reason : String)
  | handshakeTimeout
  | serverChanged (server : String) (expected seen : Fingerprint)
  | serverNotTrusted (seen : Fingerprint)
deriving DecidableEq

def Version.text (v : Version) : String := toString v.major ++ "." ++ toString v.minor

namespace ConnectFailure

/-- The text of the error. -/
def text : ConnectFailure → String
  | connect server source => "connecting to " ++ server ++ ": " ++ source
  | codec text => text
  | incompatible version => "server runs incompatible protocol " ++ version.text
  | rejected reason => "server rejected this client: " ++ reason
  | unexpected what => "server sent \"" ++ what ++ "\" instead of a handshake reply"
  | tls reason => "TLS: " ++ reason
  | handshakeTimeout => "the server did not complete the handshake in time"
  | serverChanged server expected seen =>
    "the server's certificate changed: expected " ++ expected.toText ++ " but " ++ server
      ++ " presented " ++ seen.toText
      ++ ". This could be an impostor. If the server was deliberately reinstalled, remove its "
      ++ "entry from the known-servers file and try again."
  | serverNotTrusted seen => "the server's certificate (" ++ seen.toText ++ ") was not trusted"

/-- Trying again could never help. -/
def isFatal : ConnectFailure → Bool
  | incompatible _ | serverChanged .. | serverNotTrusted _ => true
  | _ => false

end ConnectFailure

/-! ## What the client is doing -/

inductive ClientStatus where
  | connecting
  | connected
  /-- The server refused the client until a person approves it there. -/
  | awaitingApproval (text : String)
  | retrying (text : String)
  /-- Gave up for good. -/
  | fatal (text : String)
deriving DecidableEq

/-- `str::contains`. -/
def strContains (text part : String) : Bool := decide (part.toList <:+: text.toList)

/-- What is shown after an error that is not fatal: the server's answer tells by its words whether
a person is to approve the client there. -/
def ClientStatus.ofFailure : ConnectFailure → ClientStatus
  | .rejected reason =>
    if strContains reason "approval" || strContains reason "different certificate" then
      .awaitingApproval reason
    else .retrying (ConnectFailure.rejected reason).text
  | other => .retrying other.text

/-! ## The loop

The loop of the reconnecting client: a pass for each attempt, with the wait that follows it. -/

/-- `Duration::MAX`, in nanoseconds. -/
def DURATION_MAX : Nat := (2 ^ 64 - 1) * 10 ^ 9 + 999999999

/-- How the attempts are paced, in nanoseconds. -/
structure ReconnectPolicy where
  /-- The wait before the first retry. -/
  initial : Nat := 10 ^ 9
  /-- The wait doubles after each failure up to this. -/
  max : Nat := 10 * 10 ^ 9
  /-- A connection that lasted at least this long counts as healthy. -/
  stableAfter : Nat := 10 * 10 ^ 9
  max_le : max ≤ DURATION_MAX := by decide

/-- One call of `connect_observed`, and what the monitors are read to be after it. -/
structure KeeperAttempt where
  /-- How many connections it makes, after the first. -/
  again : Nat := 0
  /-- Whether the handshake is done. -/
  connected : Bool := false
  /-- The error it returns, if it is one. -/
  failure : Option ConnectFailure := none
  took : Nat := 0
  /-- What `detect` gives, where there is one. -/
  detected : Option (List Rect) := none

inductive KeeperEvent where
  /-- An attempt begins; the monitors it reports. -/
  | attempt (monitors : List Rect)
  | status (s : ClientStatus)
  /-- The sink lets go of what it holds. -/
  | leave
  | wait (d : Nat)
deriving DecidableEq

namespace KeeperAttempt

/-- The error the loop returns with. -/
def fatal? (a : KeeperAttempt) : Option ConnectFailure := a.failure.filter (·.isFatal)

/-- What `connect_observed` reports on its way. -/
def progress (a : KeeperAttempt) : List KeeperEvent :=
  List.replicate (a.again + 1) (.status .connecting)
    ++ if a.connected then [.status .connected] else []

/-- What the loop reports after it. -/
def verdict (a : KeeperAttempt) : ClientStatus :=
  match a.failure with
  | none => .retrying "disconnected from the server"
  | some e => if e.isFatal then .fatal e.text else .ofFailure e

/-- The monitors to report from here on. -/
def monitorsAfter (a : KeeperAttempt) (monitors : List Rect) : List Rect :=
  match a.detected with
  | some fresh => if fresh = [] then monitors else fresh
  | none => monitors

end KeeperAttempt

/-- Where `connect_with_status` stands between two passes, with what it has done. -/
structure Keeper where
  monitors : List Rect
  delay : Nat
  returned : Option ConnectFailure := none
  log : List KeeperEvent := []

namespace Keeper

/-- One pass of the loop. -/
def pass (p : ReconnectPolicy) (k : Keeper) (a : KeeperAttempt) : Keeper :=
  if k.returned.isSome then k
  else
    let log := k.log ++ .attempt k.monitors :: a.progress ++ [.status a.verdict]
    match a.fatal? with
    | some e => { k with returned := some e, log := log }
    | none =>
      let delay := if p.stableAfter ≤ a.took then p.initial else k.delay
      { monitors := a.monitorsAfter k.monitors
        delay := min (min (2 * delay) DURATION_MAX) p.max
        log := log ++ [.leave, .wait delay] }

end Keeper

/-- `connect_with_status`, through these attempts. -/
def connectWithStatus (p : ReconnectPolicy) (monitors : List Rect) (attempts : List KeeperAttempt) :
    Keeper :=
  attempts.foldl (Keeper.pass p) { monitors := monitors, delay := p.initial }

/-! ## A pass by what came before it

The loop keeps its counters in variables. The same numbers can be read off the attempts so far,
with no variables. -/

namespace ReconnectPolicy

/-- The wait, so many attempts after the first or after a connection that lasted. -/
def pace (p : ReconnectPolicy) (failures : Nat) : Nat :=
  if failures = 0 then p.initial else min (2 ^ failures * p.initial) p.max

/-- The attempts at the end of the list that did not last, the first of all apart. -/
def unsteady (p : ReconnectPolicy) (attempts : List KeeperAttempt) : Nat :=
  (attempts.tail.reverse.takeWhile fun a => a.took < p.stableAfter).length

end ReconnectPolicy

/-- The last monitors read, or the ones at the start. -/
def lastDetected (monitors : List Rect) (attempts : List KeeperAttempt) : List Rect :=
  ((attempts.filterMap (·.detected)).filter (· ≠ [])).getLastD monitors

/-- The attempts that are made: none follows a fatal one. -/
def attemptsMade : List KeeperAttempt → List KeeperAttempt
  | [] => []
  | a :: rest => a :: if a.fatal?.isSome then [] else attemptsMade rest

/-- What is done in the pass of the attempt `a`, after the attempts `before`. -/
def passAfter (p : ReconnectPolicy) (monitors : List Rect) (before : List KeeperAttempt)
    (a : KeeperAttempt) : List KeeperEvent :=
  .attempt (lastDetected monitors before) :: a.progress ++ .status a.verdict ::
    if a.fatal?.isSome then [] else [.leave, .wait (p.pace (p.unsteady (before ++ [a])))]

/-- All that is done through these attempts, one after another. -/
def passes (p : ReconnectPolicy) (monitors : List Rect) (attempts : List KeeperAttempt) :
    List KeeperEvent :=
  (List.range attempts.length).flatMap fun i =>
    match attempts[i]? with
    | some a => passAfter p monitors (attempts.take i) a
    | none => []

/-! ## The loop does that

By induction on the attempts, the variables are what was read off, and so are the log, the waits
and the error returned. -/

section Loop

variable {p : ReconnectPolicy} {monitors : List Rect}

/-- One attempt more is one pass more at the end. -/
theorem passes_append (attempts : List KeeperAttempt) (a : KeeperAttempt) :
    passes p monitors (attempts ++ [a])
      = passes p monitors attempts ++ passAfter p monitors attempts a := by
  have hbefore : ∀ i ∈ List.range attempts.length,
      (match (attempts ++ [a])[i]? with
        | some b => passAfter p monitors ((attempts ++ [a]).take i) b
        | none => [])
      = match attempts[i]? with
        | some b => passAfter p monitors (attempts.take i) b
        | none => [] := by
    intro i hi
    have hlt : i < attempts.length := List.mem_range.mp hi
    rw [List.getElem?_append_left hlt, List.take_append_of_le_length hlt.le]
  unfold passes
  rw [List.length_append, List.length_singleton, List.range_succ, List.flatMap_append,
    List.flatMap_congr hbefore]
  simp

/-- As long as none is fatal all attempts are made. -/
theorem attemptsMade_of_going {attempts : List KeeperAttempt}
    (h : ∀ a ∈ attempts, a.fatal? = none) : attemptsMade attempts = attempts := by
  induction attempts with
  | nil => rfl
  | cons a rest ih =>
    have ha : a.fatal? = none := h a List.mem_cons_self
    rw [attemptsMade, ha, ih fun b hb => h b (List.mem_cons_of_mem _ hb)]
    rfl

/-- After an attempt that was fatal none is made. -/
theorem attemptsMade_append_of_fatal {attempts : List KeeperAttempt}
    (h : ∃ a ∈ attempts, a.fatal?.isSome) (more : List KeeperAttempt) :
    attemptsMade (attempts ++ more) = attemptsMade attempts := by
  induction attempts with
  | nil => obtain ⟨a, ha, -⟩ := h; cases ha
  | cons b rest ih =>
    rw [List.cons_append, attemptsMade, attemptsMade]
    by_cases hb : b.fatal?.isSome
    · rw [if_pos hb, if_pos hb]
    · obtain ⟨a, ha, hfatal⟩ := h
      have hrest : a ∈ rest := by
        rcases List.mem_cons.mp ha with rfl | hrest
        · exact absurd hfatal hb
        · exact hrest
      rw [if_neg hb, if_neg hb, ih ⟨a, hrest, hfatal⟩]

/-- After the first attempt, each adds one that did not last, or begins the count again. -/
theorem unsteady_append {attempts : List KeeperAttempt} (h : attempts ≠ []) (a : KeeperAttempt) :
    p.unsteady (attempts ++ [a])
      = if p.stableAfter ≤ a.took then 0 else p.unsteady attempts + 1 := by
  unfold ReconnectPolicy.unsteady
  rw [List.tail_append_of_ne_nil h, List.reverse_append, List.reverse_singleton,
    List.singleton_append, List.takeWhile_cons]
  by_cases hstable : p.stableAfter ≤ a.took
  · rw [if_pos hstable, if_neg (by simpa using hstable)]
    rfl
  · rw [if_neg hstable, if_pos (by simpa using hstable), List.length_cons]

/-- What was detected last is what the last attempt detected, or what was before. -/
theorem lastDetected_append (attempts : List KeeperAttempt) (a : KeeperAttempt) :
    lastDetected monitors (attempts ++ [a]) = a.monitorsAfter (lastDetected monitors attempts) := by
  unfold lastDetected KeeperAttempt.monitorsAfter
  rw [List.filterMap_append, List.filter_append]
  cases hd : a.detected with
  | none => simp [hd]
  | some fresh => by_cases hf : fresh = [] <;> simp [hd, hf, List.getLastD_eq_getLast?]

/-- Doubling up to the bound. -/
theorem pace_succ (n : Nat) :
    min (min (2 * p.pace n) DURATION_MAX) p.max = p.pace (n + 1) := by
  have hmax : p.max ≤ DURATION_MAX := p.max_le
  have hpow : 2 ^ (n + 1) * p.initial = 2 * (2 ^ n * p.initial) := by ring
  unfold ReconnectPolicy.pace
  rw [if_neg (Nat.succ_ne_zero n), hpow]
  by_cases hn : n = 0
  · rw [if_pos hn, hn, pow_zero, one_mul]
    omega
  · rw [if_neg hn]
    omega

/-- The delay that is carried from pass to pass. -/
def nextDelay (p : ReconnectPolicy) (attempts : List KeeperAttempt) : Nat :=
  if attempts = [] then p.initial else p.pace (p.unsteady attempts + 1)

/-- What is waited after another attempt, and the delay that is carried on from there. -/
theorem nextDelay_append (attempts : List KeeperAttempt) (a : KeeperAttempt) :
    (if p.stableAfter ≤ a.took then p.initial else nextDelay p attempts)
        = p.pace (p.unsteady (attempts ++ [a]))
      ∧ nextDelay p (attempts ++ [a]) = p.pace (p.unsteady (attempts ++ [a]) + 1) := by
  refine ⟨?_, by simp [nextDelay]⟩
  unfold nextDelay
  by_cases hfirst : attempts = []
  · subst hfirst
    simp [ReconnectPolicy.unsteady, ReconnectPolicy.pace]
  · rw [unsteady_append hfirst, if_neg hfirst]
    by_cases hstable : p.stableAfter ≤ a.took
    · rw [if_pos hstable, if_pos hstable]
      rfl
    · rw [if_neg hstable, if_neg hstable]

/-- Where the loop stands after these attempts. -/
structure KeptSo (p : ReconnectPolicy) (monitors : List Rect) (attempts : List KeeperAttempt)
    (k : Keeper) : Prop where
  log : k.log = passes p monitors (attemptsMade attempts)
  returned : k.returned = (attemptsMade attempts).getLast?.bind (·.fatal?)
  going : k.returned = none → (∀ a ∈ attempts, a.fatal? = none)
    ∧ k.monitors = lastDetected monitors attempts ∧ k.delay = nextDelay p attempts
  gone : k.returned ≠ none → ∃ a ∈ attempts, a.fatal?.isSome

/-- One pass more keeps the log, the wait and the error in step with the attempts. -/
theorem keptSo_pass {attempts : List KeeperAttempt} {k : Keeper} (h : KeptSo p monitors attempts k)
    (a : KeeperAttempt) : KeptSo p monitors (attempts ++ [a]) (k.pass p a) := by
  unfold Keeper.pass
  by_cases hdone : k.returned.isSome
  · -- It has returned, and nothing is done any more.
    have hfatal := h.gone (Option.isSome_iff_ne_none.mp hdone)
    rw [if_pos hdone]
    refine ⟨?_, ?_, ?_, ?_⟩
    · rw [h.log, attemptsMade_append_of_fatal hfatal]
    · rw [h.returned, attemptsMade_append_of_fatal hfatal]
    · intro hnone
      rw [hnone] at hdone
      cases hdone
    · intro _
      obtain ⟨b, hb, hbf⟩ := hfatal
      exact ⟨b, List.mem_append_left _ hb, hbf⟩
  · have hnone : k.returned = none := by simpa using hdone
    obtain ⟨hall, hmonitors, hdelay⟩ := h.going hnone
    have hmade : attemptsMade (attempts ++ [a]) = attempts ++ [a] := by
      clear h hmonitors hdelay
      induction attempts with
      | nil =>
        rw [List.nil_append, attemptsMade]
        split <;> rfl
      | cons b rest ih =>
        have hb : b.fatal? = none := hall b List.mem_cons_self
        rw [List.cons_append, attemptsMade, hb, ih fun c hc => hall c (List.mem_cons_of_mem _ hc)]
        rfl
    have hlog : k.log = passes p monitors attempts := by
      rw [h.log, attemptsMade_of_going hall]
    obtain ⟨hwait, hnext⟩ := nextDelay_append (p := p) attempts a
    rw [if_neg hdone]
    cases ha : a.fatal? with
    | some e =>
      refine ⟨?_, ?_, ?_, ?_⟩
      · rw [hmade, passes_append, ← hlog]
        simp [passAfter, ha, hmonitors]
      · rw [hmade]
        simp [ha]
      · intro hret
        cases hret
      · intro _
        exact ⟨a, by simp, by rw [ha]; rfl⟩
    | none =>
      refine ⟨?_, ?_, ?_, ?_⟩
      · rw [hmade, passes_append, ← hlog]
        simp [passAfter, ha, hmonitors, hdelay, hwait]
      · rw [hmade]
        simp [ha]
      · intro _
        refine ⟨?_, ?_, ?_⟩
        · intro b hb
          rcases List.mem_append.mp hb with hold | hnew
          · exact hall b hold
          · rw [List.mem_singleton.mp hnew, ha]
        · rw [lastDetected_append, ← hmonitors]
        · rw [hnext, ← pace_succ, ← hwait, hdelay]
      · intro hret
        exact absurd rfl hret

/-- **So they are for every sequence of attempts.** -/
theorem keptSo (p : ReconnectPolicy) (monitors : List Rect) (attempts : List KeeperAttempt) :
    KeptSo p monitors attempts (connectWithStatus p monitors attempts) := by
  induction attempts using List.reverseRecOn with
  | nil =>
    refine ⟨rfl, rfl, fun _ => ⟨?_, rfl, rfl⟩, fun h => absurd rfl h⟩
    intro a ha
    cases ha
  | append_singleton attempts a ih =>
    unfold connectWithStatus at ih ⊢
    rw [List.foldl_append]
    exact keptSo_pass ih a

/-- Every wait lies between the least and the greatest. -/
theorem pace_bounds (n : Nat) :
    min p.initial p.max ≤ p.pace n ∧ p.pace n ≤ max p.initial p.max := by
  unfold ReconnectPolicy.pace
  by_cases hn : n = 0
  · rw [if_pos hn]
    omega
  · rw [if_neg hn]
    have hpow : p.initial ≤ 2 ^ n * p.initial := Nat.le_mul_of_pos_left _ (Nat.two_pow_pos n)
    omega

/-- Between two attempts the loop waits, for no less than the smaller of its two delays and no more
than the larger. -/
theorem wait_bounds {attempts : List KeeperAttempt} {d : Nat}
    (h : .wait d ∈ passes p monitors attempts) :
    min p.initial p.max ≤ d ∧ d ≤ max p.initial p.max := by
  obtain ⟨i, -, hi⟩ := List.mem_flatMap.mp h
  split at hi
  · next a ha =>
    have hd : d = p.pace (p.unsteady (attempts.take i ++ [a])) := by
      have hprogress : KeeperEvent.wait d ∉ a.progress := by
        unfold KeeperAttempt.progress
        split <;> simp
      unfold passAfter at hi
      split at hi <;> simp_all
    rw [hd]
    exact pace_bounds _
  · cases hi

/-- **Keeping a client connected.** Whatever its attempts come to, the client makes them up to the
first error that retrying cannot fix and returns with that one; each pass is what `passAfter` says
of it by the attempts before; and no wait is shorter than both delays of the policy or longer than
both. -/
theorem reconnects (p : ReconnectPolicy) (monitors : List Rect) (attempts : List KeeperAttempt) :
    (connectWithStatus p monitors attempts).log = passes p monitors (attemptsMade attempts)
      ∧ (connectWithStatus p monitors attempts).returned
        = (attemptsMade attempts).getLast?.bind (·.fatal?)
      ∧ ∀ d, .wait d ∈ (connectWithStatus p monitors attempts).log →
        min p.initial p.max ≤ d ∧ d ≤ max p.initial p.max := by
  have h := keptSo p monitors attempts
  refine ⟨h.log, h.returned, ?_⟩
  intro d hd
  rw [h.log] at hd
  exact wait_bounds hd

end Loop

end GeserDesk
