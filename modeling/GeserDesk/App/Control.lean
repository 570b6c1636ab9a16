import GeserDesk.Lib.Transition
import GeserDesk.Proto.Clipboard
import GeserDesk.Server.Layout

/-!
# The control channel

`greet`, `converse` and `dispatch` of `geserdesk-app/src/control/service.rs`, and `read_line` of
`control/wire.rs`. A controller writes one request per line; the daemon reads on in a future that
holds what it has taken of a line, and that goes with the future when an event is ready first.

* **`converse_serves`**: as long as no event comes while a line is half read, every request is
  dispatched once, in order, and answered; and nothing is dispatched before the right token is
  shown, nor anything but `Info` and `Shutdown` to a controller of another protocol.
* **`half_line_lost`**: an event that comes within a line takes what was read of it along.
-/

namespace GeserDesk

def PROTOCOL : Nat := 7

/-- The longest line, its newline included. -/
def MAX_LINE : Nat := 4 * 1024 * 1024

structure ClientOptions where
  server : String := ""
  name : String := ""
  logOnly : Bool := false
  reconnect : Bool := true
  tls : Bool := true
  identityDir : Option String := none
  monitors : Option (List Rect) := none
  clipboard : Bool := true
  clipboardFiles : Bool := true
deriving DecidableEq, Repr

inductive StartSpec where
  | client (options : ClientOptions)
  | server (config : String) (capture : Bool)
deriving DecidableEq, Repr

inductive Command where
  | hello (protocol : Nat) (token : String)
  | info
  | start (spec : StartSpec)
  | stop
  | shutdown
  | status
  | desk
  | saveLayout (positions : List (String × Point)) (sizes : List (String × Option Size))
  | approve (name fingerprint : String)
  | dismiss (name fingerprint : String)
  | revoke (name : String)
  | setDisabled (name : String) (disabled : Bool)
  | currentPrompt
  | answerPrompt (trust : Bool)
  | logSnapshot
  | clearLog
  | cancelTransfer
  | sharedFiles
  | forgetShared (entry : Option Nat)
  | subscribe
deriving DecidableEq, Repr

structure Request where
  id : Nat
  cmd : Command
deriving DecidableEq, Repr

/-- What is pushed to a subscribed controller, without what is in it. -/
inductive EventKind where
  | status | prompt | log | transfer | clientRequest | closing
deriving DecidableEq, Repr

inductive ToController (ρ : Type) where
  | response (id : Nat) (result : Except String ρ)
  | event (kind : EventKind)
deriving DecidableEq

/-- What serde_json does to requests. -/
structure Json where
  encode : Request → String
  decode : String → Option Request

/-- `str::trim_end`. -/
def trimEnd (text : String) : String :=
  String.ofList (text.toList.reverse.dropWhile isWhitespace).reverse

/-- `same_token`: equal, whatever the time it takes. -/
def sameToken (a b : String) : Bool := a = b

/-- What the daemon answers with: its session, of state `σ`, and its replies. -/
structure Daemon (σ ρ : Type) where
  token : String
  info : σ → ρ
  done : ρ
  /-- Every command but `Hello` and `Subscribe`. -/
  perform : σ → Command → Except String ρ × σ

/-- `dispatch`, with whether the controller is subscribed. -/
def dispatch {σ ρ : Type} (d : Daemon σ ρ) (session : σ) (subs : Bool) :
    Command → Except String ρ × σ × Bool
  | .hello _ _ => (.error "Hello hanya sekali", session, subs)
  | .subscribe => (.ok d.done, session, true)
  | cmd =>
    let (result, session) := d.perform session cmd
    (result, session, subs)

/-! ## A connection

One connection of the control channel: its buffer, what it has read and said, and whether it still
awaits the token. A step is a read, an event of the daemon, or an end. -/

inductive Ending where
  | endOfStream | closing | helloTimeout | refused | badLine
deriving DecidableEq, Repr

inductive Phase where
  | greeting
  | conversing (limited : Bool)
  | gone (why : Ending)
deriving DecidableEq, Repr

/-- A controller's connection, from the daemon's side. -/
structure Conn (σ ρ : Type) where
  /-- Sent and not yet taken from the reader. -/
  left : Bytes
  /-- What the future that reads a line has taken. -/
  taken : Bytes := []
  phase : Phase := .greeting
  subs : Bool := false
  session : σ
  out : List (ToController ρ) := []
  /-- What was dispatched (bookkeeping only). -/
  dispatched : List Command := []

inductive ConnLabel (σ : Type) where
  /-- The reader has `n` bytes for the line. -/
  | take (n : Nat)
  | eof
  | event (kind : EventKind)
  | closing
  | helloTimeout
  /-- The session goes on elsewhere. -/
  | elsewhere (session : σ)
deriving DecidableEq

/-- The bytes up to the first newline, or all. -/
def throughNewline : Bytes → Bytes
  | [] => []
  | b :: bs => if b = 10 then [b] else b :: throughNewline bs

section

variable {σ ρ : Type} (json : Json) (d : Daemon σ ρ)

/-- A line as text, without its newline. -/
def lineText (line : Bytes) : Option String :=
  (String.fromUTF8? ⟨line.toArray⟩).map trimEnd

def Conn.say (s : Conn σ ρ) (message : ToController ρ) : Conn σ ρ :=
  { s with out := s.out ++ [message] }

/-- `greet`, once there is a line. -/
def Conn.greet (s : Conn σ ρ) (text : String) : Conn σ ρ :=
  match json.decode text with
  | none => { s with phase := .gone .refused }
  | some request =>
    match request.cmd with
    | .hello protocol token =>
      if !sameToken token d.token then
        { s.say (.response request.id (.error "token salah")) with phase := .gone .refused }
      else
        { s.say (.response request.id (.ok (d.info s.session))) with
          phase := .conversing (protocol ≠ PROTOCOL) }
    | _ =>
      { s.say (.response request.id (.error "Hello harus dikirim lebih dulu")) with
        phase := .gone .refused }

/-- The branch of `converse` for a line. The text of a parse error is left out. -/
def Conn.converse (s : Conn σ ρ) (limited : Bool) (text : String) : Conn σ ρ :=
  match json.decode text with
  | none => s.say (.response 0 (.error "pesan tidak dikenal"))
  | some ⟨id, cmd⟩ =>
    if limited && !(cmd = .info || cmd = .shutdown) then
      s.say (.response id
        (.error "versi protokol beda: hanya Info dan Shutdown yang diizinkan"))
    else
      let (result, session, subs) := dispatch d s.session s.subs cmd
      { s.say (.response id result) with
        session := session
        subs := subs
        dispatched := s.dispatched ++ [cmd] }

/-- The future is done, with a line or the end of the stream. -/
def Conn.onLine (s : Conn σ ρ) (line : Bytes) : Conn σ ρ :=
  let s := { s with taken := [] }
  match lineText line, s.phase with
  | none, _ => { s with phase := .gone .badLine }
  | some text, .greeting => s.greet json d text
  | some text, .conversing limited => s.converse json d limited text
  | some _, .gone _ => s

def Conn.reading (s : Conn σ ρ) : Bool :=
  match s.phase with
  | .gone _ => false
  | _ => true

def Conn.step (s : Conn σ ρ) : ConnLabel σ → Option (Conn σ ρ)
  | .take n =>
    if s.reading ∧ 0 < n ∧ n ≤ s.left.length then
      let used := throughNewline ((s.left.take n).take (MAX_LINE - s.taken.length))
      let line := s.taken ++ used
      let s := { s with left := s.left.drop used.length }
      if line.getLast? = some 10 then some (s.onLine json d line)
      else if MAX_LINE ≤ line.length then some { s with taken := line, phase := .gone .badLine }
      else some { s with taken := line }
    else none
  | .eof =>
    if s.reading ∧ s.left = [] then
      if s.taken.isEmpty then some { s with phase := .gone .endOfStream }
      else some (s.onLine json d s.taken)
    else none
  -- the other branches of the `select!`: the future goes, and what it has taken
  | .event kind =>
    match s.phase with
    | .conversing _ => if s.subs then some { s.say (.event kind) with taken := [] } else none
    | _ => none
  | .closing =>
    match s.phase with
    | .conversing _ =>
      some { s.say (.event .closing) with taken := [], phase := .gone .closing }
    | _ => none
  | .helloTimeout =>
    match s.phase with
    | .greeting => some { s with taken := [], phase := .gone .helloTimeout }
    | _ => none
  | .elsewhere session => some { s with session := session }

/-- All runs of a connection over which these bytes come. -/
def connLts (stream : Bytes) : Lts (Conn σ ρ) (ConnLabel σ) where
  init s := ∃ session, s = { left := stream, session := session }
  step s l := s.step json d l

end

/-! ## Lines

A line is what stands before the first newline. Bytes are read in any portions, so these lemmas
say how a line comes together. -/

/-- A line that has not ended goes on in what comes after it. -/
theorem throughNewline_append {a : Bytes} (h : 10 ∉ a) (b : Bytes) :
    throughNewline (a ++ b) = a ++ throughNewline b := by
  induction a with
  | nil => rfl
  | cons x a ih =>
    rw [List.mem_cons, not_or] at h
    rw [List.cons_append, throughNewline, if_neg (Ne.symm h.1), ih h.2]
    rfl

/-- Bytes without an end of line are all part of the line. -/
theorem throughNewline_of_not_mem {a : Bytes} (h : 10 ∉ a) : throughNewline a = a := by
  have := throughNewline_append h []
  rwa [List.append_nil, throughNewline, List.append_nil] at this

/-- The first line is a line without a newline, and its newline. -/
theorem throughNewline_of_mem {a : Bytes} (h : 10 ∈ a) : ∃ body, 10 ∉ body ∧
    throughNewline a = body ++ [10] ∧ body ++ [10] <+: a := by
  induction a with
  | nil => cases h
  | cons x a ih =>
    by_cases hx : x = 10
    · subst hx
      exact ⟨[], nofun, rfl, ⟨a, rfl⟩⟩
    · obtain ⟨body, hbody, hline, hprefix⟩ := ih (List.mem_of_ne_of_mem (Ne.symm hx) h)
      refine ⟨x :: body, ?_, ?_, ?_⟩
      · rw [List.mem_cons, not_or]
        exact ⟨Ne.symm hx, hbody⟩
      · rw [throughNewline, if_neg hx, hline]
        rfl
      · exact List.cons_prefix_cons.mpr ⟨rfl, hprefix⟩

/-- A line that has ended is not changed by what comes after it. -/
theorem throughNewline_append_of_mem {a : Bytes} (h : 10 ∈ a) (b : Bytes) :
    throughNewline (a ++ b) = throughNewline a := by
  obtain ⟨body, hbody, hline, rest, hrest⟩ := throughNewline_of_mem h
  rw [hline, ← hrest, List.append_assoc, List.append_assoc, throughNewline_append hbody]
  rfl

/-! ## What one step can do

The cases of a step, each with the state it leaves; all the invariants below go by them. -/

section

variable {σ ρ : Type} {json : Json} {d : Daemon σ ρ} {s s' : Conn σ ρ}

/-- The loop reads before the greeting and in the conversation. -/
theorem Conn.reading_iff :
    s.reading = true ↔ s.phase = .greeting ∨ ∃ limited, s.phase = .conversing limited := by
  unfold Conn.reading
  cases s.phase <;> simp

/-- What becomes of the bytes the reader has, if there is no newline in what was taken before:
the line is whole, or too long, or it goes on. -/
theorem Conn.take_cases {n : Nat} (h : s.step json d (.take n) = some s') (htaken : 10 ∉ s.taken) :
    s.reading = true ∧ ∃ m, 0 < n ∧ m = min n (MAX_LINE - s.taken.length) ∧ m ≤ s.left.length
      ∧ ((10 ∈ s.left.take m ∧ s' = ({ s with
            left := s.left.drop (throughNewline s.left).length }.onLine json d
              (s.taken ++ throughNewline s.left)))
        ∨ (10 ∉ s.left.take m ∧ MAX_LINE ≤ (s.taken ++ s.left.take m).length ∧ s' = { s with
            left := s.left.drop m, taken := s.taken ++ s.left.take m, phase := .gone .badLine })
        ∨ 10 ∉ s.left.take m ∧ s' = { s with
            left := s.left.drop m, taken := s.taken ++ s.left.take m }) := by
  obtain ⟨⟨hreading, hpos, hn⟩, h⟩ := Option.ite_none_right_eq_some.mp h
  refine ⟨hreading, min n (MAX_LINE - s.taken.length), hpos, rfl, by omega, ?_⟩
  rw [List.take_take, Nat.min_comm] at h
  generalize hm : min n (MAX_LINE - s.taken.length) = m at h ⊢
  by_cases hmem : 10 ∈ s.left.take m
  -- the line ends in what was read: it is taken to its newline
  · have hfirst : throughNewline (s.left.take m) = throughNewline s.left := by
      have := throughNewline_append_of_mem hmem (s.left.drop m)
      rwa [List.take_append_drop, eq_comm] at this
    obtain ⟨body, _, hline, _⟩ := throughNewline_of_mem hmem
    have hlast : (s.taken ++ throughNewline (s.left.take m)).getLast? = some 10 := by
      rw [hline, ← List.append_assoc, List.getLast?_concat]
    rw [if_pos hlast, hfirst] at h
    exact .inl ⟨hmem, (Option.some.inj h).symm⟩
  -- it does not: all of it is taken
  · have hused : throughNewline (s.left.take m) = s.left.take m := throughNewline_of_not_mem hmem
    have hlast : (s.taken ++ s.left.take m).getLast? ≠ some 10 := fun hlast =>
      (List.mem_append.mp (List.mem_of_getLast? hlast)).elim htaken hmem
    have hdrop : s.left.drop (s.left.take m).length = s.left.drop m := by
      rw [List.length_take, Nat.min_eq_left (by omega)]
    rw [hused, if_neg hlast, hdrop] at h
    by_cases hlong : MAX_LINE ≤ (s.taken ++ s.left.take m).length
    · rw [if_pos hlong] at h
      exact .inr (.inl ⟨hmem, hlong, (Option.some.inj h).symm⟩)
    · rw [if_neg hlong] at h
      exact .inr (.inr ⟨hmem, (Option.some.inj h).symm⟩)

/-- An end of the stream comes while the loop reads and nothing is left: between two lines it is the
end, and inside one what there is of the line is handled as one. -/
theorem Conn.eof_cases (h : s.step json d .eof = some s') :
    s.reading = true ∧ s.left = []
      ∧ (s.taken = [] ∧ s' = { s with phase := .gone .endOfStream }
        ∨ s.taken ≠ [] ∧ s' = s.onLine json d s.taken) := by
  obtain ⟨⟨hreading, hleft⟩, h⟩ := Option.ite_none_right_eq_some.mp h
  refine ⟨hreading, hleft, ?_⟩
  split at h
  · next hempty => exact .inl ⟨List.isEmpty_iff.mp hempty, (Option.some.inj h).symm⟩
  · next hmore => exact .inr ⟨by simpa using hmore, (Option.some.inj h).symm⟩

/-- The steps that end the future, or have nothing to do with it. -/
theorem Conn.other_cases {l : ConnLabel σ} (h : s.step json d l = some s')
    (htake : ∀ n, l ≠ .take n) (heof : l ≠ .eof) :
    (∃ limited kind, l = .event kind ∧ s.phase = .conversing limited
      ∧ s' = { s.say (.event kind) with taken := [] })
    ∨ (∃ limited, s.phase = .conversing limited
      ∧ s' = { s.say (.event .closing) with taken := [], phase := .gone .closing })
    ∨ (s.phase = .greeting ∧ s' = { s with taken := [], phase := .gone .helloTimeout })
    ∨ ∃ session, s' = { s with session := session } := by
  cases l with
  | take n => exact absurd rfl (htake n)
  | eof => exact absurd rfl heof
  | event kind =>
    unfold Conn.step at h
    cases hphase : s.phase with
    | conversing limited =>
      rw [hphase] at h
      obtain ⟨_, h⟩ := Option.ite_none_right_eq_some.mp h
      exact .inl ⟨limited, kind, rfl, rfl, (Option.some.inj h).symm⟩
    | greeting | gone => simp [hphase] at h
  | closing =>
    unfold Conn.step at h
    cases hphase : s.phase with
    | conversing limited =>
      rw [hphase] at h
      exact .inr (.inl ⟨limited, rfl, (Option.some.inj h).symm⟩)
    | greeting | gone => simp [hphase] at h
  | helloTimeout =>
    unfold Conn.step at h
    cases hphase : s.phase with
    | greeting =>
      rw [hphase] at h
      exact .inr (.inr (.inl ⟨rfl, (Option.some.inj h).symm⟩))
    | conversing | gone => simp [hphase] at h
  | elsewhere session => exact .inr (.inr (.inr ⟨session, (Option.some.inj h).symm⟩))

/-! ## Nothing before the token

Until a line with the right token has been read nothing is dispatched, and after it a limited
controller has only what its role allows. -/

/-- What the first line of a connection says. -/
def firstRequest (json : Json) (stream : Bytes) : Option Request :=
  (lineText (throughNewline stream)).bind json.decode

/-- The first line shows the token; and if it names another protocol, nothing but `Info` and
`Shutdown` was dispatched. -/
def LetIn (json : Json) (d : Daemon σ ρ) (stream : Bytes) (limited : Bool)
    (dispatched : List Command) : Prop :=
  (∃ id protocol, firstRequest json stream = some ⟨id, .hello protocol d.token⟩
    ∧ limited = decide (protocol ≠ PROTOCOL))
  ∧ (limited = true → ∀ cmd ∈ dispatched, cmd = .info ∨ cmd = .shutdown)

/-- What a connection's phase says about what was dispatched on it. -/
def Conn.Vetted (json : Json) (d : Daemon σ ρ) (stream : Bytes) (s : Conn σ ρ) : Prop :=
  match s.phase with
  | .greeting => s.dispatched = [] ∧ s.taken ++ s.left = stream ∧ 10 ∉ s.taken
  | .conversing limited => LetIn json d stream limited s.dispatched
  | .gone _ => s.dispatched = [] ∨ ∃ limited, LetIn json d stream limited s.dispatched

variable {stream : Bytes}

/-- Whatever the phase: nothing was dispatched, or the controller was let in. -/
theorem Conn.Vetted.letIn (h : s.Vetted json d stream) :
    s.dispatched = [] ∨ ∃ limited, LetIn json d stream limited s.dispatched := by
  unfold Conn.Vetted at h
  cases hphase : s.phase with
  | greeting =>
    rw [hphase] at h
    exact .inl h.1
  | conversing limited =>
    rw [hphase] at h
    exact .inr ⟨limited, h⟩
  | gone why =>
    rw [hphase] at h
    exact h

/-- Only the first line can let the controller in. -/
theorem Conn.vetted_greet {text : String} (hnone : s.dispatched = [])
    (htext : lineText (throughNewline stream) = some text) :
    (s.greet json d text).Vetted json d stream := by
  unfold Conn.greet
  cases hdecode : json.decode text with
  | none => exact .inl hnone
  | some request =>
    obtain ⟨id, cmd⟩ := request
    cases cmd with
    | hello protocol token =>
      simp only
      split
      · exact .inl hnone
      · next hsame =>
        have htoken : token = d.token := by simpa [sameToken] using hsame
        refine ⟨⟨id, protocol, ?_, rfl⟩, fun _ cmd hcmd => ?_⟩
        · rw [firstRequest, htext, ← htoken]
          exact hdecode
        · have hcmd : cmd ∈ s.dispatched := hcmd
          rw [hnone] at hcmd
          cases hcmd
    | _ => exact .inl hnone

/-- A line of the conversation is dispatched after the greeting that let the client in. -/
theorem Conn.vetted_converse {limited : Bool} {text : String}
    (hphase : s.phase = .conversing limited) (hin : LetIn json d stream limited s.dispatched) :
    (s.converse json d limited text).Vetted json d stream := by
  unfold Conn.converse
  cases hdecode : json.decode text with
  | none =>
    unfold Conn.Vetted
    simp only [Conn.say, hphase]
    exact hin
  | some request =>
    obtain ⟨id, cmd⟩ := request
    simp only
    split
    · unfold Conn.Vetted
      simp only [Conn.say, hphase]
      exact hin
    · next hallowed =>
      unfold Conn.Vetted
      simp only [Conn.say, hphase]
      refine ⟨hin.1, fun hlimited => ?_⟩
      -- what is dispatched is one of the two that a limited controller may
      rw [List.forall_mem_append, List.forall_mem_singleton]
      refine ⟨hin.2 hlimited, ?_⟩
      simpa [hlimited, or_iff_not_imp_left] using hallowed

/-- Every line the loop makes out is dispatched after that greeting, the first one being the first
of the stream. -/
theorem Conn.vetted_onLine {line : Bytes} (hreading : s.reading = true)
    (hgreeting : s.phase = .greeting → s.dispatched = [] ∧ line = throughNewline stream)
    (hin : ∀ limited, s.phase = .conversing limited → LetIn json d stream limited s.dispatched) :
    (s.onLine json d line).Vetted json d stream := by
  unfold Conn.onLine
  cases htext : lineText line with
  | none =>
    rcases reading_iff.mp hreading with hphase | ⟨limited, hphase⟩
    · exact .inl (hgreeting hphase).1
    · exact .inr ⟨limited, hin limited hphase⟩
  | some text =>
    rcases reading_iff.mp hreading with hphase | ⟨limited, hphase⟩
    -- only the first line is greeted
    · obtain ⟨hnone, hline⟩ := hgreeting hphase
      rw [hline] at htext
      simp only [hphase]
      exact Conn.vetted_greet hnone htext
    · simp only [hphase]
      exact Conn.vetted_converse rfl (hin limited hphase)

/-- A line that is acted on leaves the future empty, and the stream as it is. -/
theorem Conn.onLine_frame {line : Bytes} :
    (s.onLine json d line).taken = [] ∧ (s.onLine json d line).left = s.left := by
  unfold Conn.onLine
  cases lineText line with
  | none => exact ⟨rfl, rfl⟩
  | some text =>
    cases s.phase with
    | greeting =>
      simp only [Conn.greet]
      split
      · exact ⟨rfl, rfl⟩
      · split
        · split <;> exact ⟨rfl, rfl⟩
        · exact ⟨rfl, rfl⟩
    | conversing limited =>
      simp only [Conn.converse]
      split
      · exact ⟨rfl, rfl⟩
      · split <;> exact ⟨rfl, rfl⟩
    | gone why => exact ⟨rfl, rfl⟩

/-- No future holds a whole line. -/
theorem Conn.taken_step {l : ConnLabel σ} (h : 10 ∉ s.taken)
    (hl : s.step json d l = some s') : 10 ∉ s'.taken := by
  by_cases htake : ∃ n, l = .take n
  · obtain ⟨n, rfl⟩ := htake
    -- a line ended, one too long, or more of one
    obtain ⟨_, m, _, _, _, ⟨_, rfl⟩ | ⟨hmem, _, rfl⟩ | ⟨hmem, rfl⟩⟩ := take_cases hl h
    · rw [onLine_frame.1]
      exact nofun
    · simpa using ⟨h, hmem⟩
    · simpa using ⟨h, hmem⟩
  · by_cases heof : l = .eof
    · subst heof
      obtain ⟨_, _, ⟨_, rfl⟩ | ⟨_, rfl⟩⟩ := eof_cases hl
      · exact h
      · rw [onLine_frame.1]
        exact nofun
    · rcases other_cases hl (fun n hn => htake ⟨n, hn⟩) heof with
        ⟨_, _, _, _, rfl⟩ | ⟨_, _, rfl⟩ | ⟨_, rfl⟩ | ⟨_, rfl⟩
      · exact nofun
      · exact nofun
      · exact nofun
      · exact h

/-- No step lets a request through that was not let in by the first line. -/
theorem Conn.vetted_step {l : ConnLabel σ} (h : s.Vetted json d stream) (htaken : 10 ∉ s.taken)
    (hl : s.step json d l = some s') : s'.Vetted json d stream := by
  have hvetted := h
  unfold Conn.Vetted at h
  by_cases htake : ∃ n, l = .take n
  · obtain ⟨n, rfl⟩ := htake
    obtain ⟨hreading, m, _, _, hm, ⟨_, rfl⟩ | ⟨hmem, _, rfl⟩ | ⟨hmem, rfl⟩⟩ := take_cases hl htaken
    · refine vetted_onLine hreading (fun hphase => ?_) fun limited hphase => ?_
      · have hphase : s.phase = .greeting := hphase
        rw [hphase] at h
        exact ⟨h.1, by rw [← h.2.1, throughNewline_append htaken]⟩
      · have hphase : s.phase = .conversing limited := hphase
        rw [hphase] at h
        exact h
    · exact hvetted.letIn
    · rcases reading_iff.mp hreading with hphase | ⟨limited, hphase⟩
      -- the stream is what is taken of its first line and what is left
      · rw [hphase] at h
        unfold Conn.Vetted
        simp only [hphase]
        refine ⟨h.1, ?_, by simpa using ⟨htaken, hmem⟩⟩
        rw [List.append_assoc, List.take_append_drop]
        exact h.2.1
      · rw [hphase] at h
        unfold Conn.Vetted
        simp only [hphase]
        exact h
  · by_cases heof : l = .eof
    · subst heof
      obtain ⟨hreading, hleft, ⟨_, rfl⟩ | ⟨_, rfl⟩⟩ := eof_cases hl
      · exact hvetted.letIn
      · -- the stream has no newline: it is its first line
        refine vetted_onLine hreading (fun hphase => ?_) fun limited hphase => ?_
        · rw [hphase] at h
          refine ⟨h.1, ?_⟩
          rw [← h.2.1, hleft, List.append_nil, throughNewline_of_not_mem htaken]
        · rw [hphase] at h
          exact h
    · rcases other_cases hl (fun n hn => htake ⟨n, hn⟩) heof with
        ⟨limited, _, _, hphase, rfl⟩ | ⟨_, _, rfl⟩ | ⟨_, rfl⟩ | ⟨_, rfl⟩
      · rw [hphase] at h
        unfold Conn.Vetted
        simp only [Conn.say, hphase]
        exact h
      · exact hvetted.letIn
      · exact hvetted.letIn
      · exact hvetted

/-- **So what was dispatched was let in by the first line of the stream, in every state reached.**
-/
theorem Conn.vetted (hs : (connLts json d stream).Reachable s) :
    10 ∉ s.taken ∧ s.Vetted json d stream := by
  refine hs.invariant (P := fun s => 10 ∉ s.taken ∧ s.Vetted json d stream) (fun s h => ?_)
    fun s l s' _ h _ hl => ⟨taken_step h.1 hl, vetted_step h.2 h.1 hl⟩
  obtain ⟨session, rfl⟩ := h
  exact ⟨nofun, rfl, rfl, nofun⟩

/-- Whatever is sent: where anything was dispatched, the first line showed the token; and if it
named another protocol, it was `Info` and `Shutdown` alone. -/
theorem Conn.Vetted.dispatched (h : s.Vetted json d stream) (hany : s.dispatched ≠ []) :
    ∃ id protocol, firstRequest json stream = some ⟨id, .hello protocol d.token⟩
      ∧ (protocol ≠ PROTOCOL → ∀ cmd ∈ s.dispatched, cmd = .info ∨ cmd = .shutdown) := by
  have hin := h.letIn.resolve_left hany
  obtain ⟨limited, ⟨id, protocol, hfirst, hlimited⟩, honly⟩ := hin
  exact ⟨id, protocol, hfirst, fun hother => honly (by rw [hlimited, decide_eq_true hother])⟩

end

/-! ## Requests as lines

A controller that writes whole lines, one request each, is answered request by request. The
invariant counts how many lines the reads so far have completed. -/

/-- The end of a line is trimmed off again. -/
theorem trimEnd_newline {text : String} (h : text.toList.getLast? = some '}') :
    trimEnd (text ++ "\n") = text := by
  obtain ⟨body, hbody⟩ : ∃ body, text.toList = body ++ ['}'] := List.getLast?_eq_some_iff.mp h
  have hchars : (text ++ "\n").toList = body ++ ['}', '\n'] := by
    rw [String.toList_append, hbody, List.append_assoc]
    rfl
  unfold trimEnd
  rw [hchars, List.reverse_append]
  have hdrop : (['}', '\n'].reverse ++ body.reverse).dropWhile isWhitespace
      = '}' :: body.reverse := rfl
  rw [hdrop, List.reverse_cons, List.reverse_reverse, ← hbody, String.ofList_toList]

/-- What `encode` of `wire.rs` makes of a request. -/
def requestLine (json : Json) (r : Request) : Bytes :=
  (json.encode r).toByteArray.data.toList ++ [10]

/-- A request is read back from its line. -/
theorem lineText_requestLine {json : Json} {r : Request}
    (h : (json.encode r).toList.getLast? = some '}') :
    lineText (requestLine json r) = some (json.encode r) := by
  have hbytes : (⟨(requestLine json r).toArray⟩ : ByteArray)
      = (json.encode r ++ "\n").toByteArray := by
    rw [String.toByteArray_append]
    apply ByteArray.ext
    simp [requestLine]
    rfl
  have hvalid : String.fromUTF8? (json.encode r ++ "\n").toByteArray
      = some (json.encode r ++ "\n") := dif_pos (json.encode r ++ "\n").isValidUTF8
  rw [lineText, hbytes, hvalid]
  exact congrArg some (trimEnd_newline h)
/-- What is relied on of a request's JSON text: it is read back, is an object on one line, and
not too long. -/
structure Sendable (json : Json) (r : Request) : Prop where
  decodes : json.decode (json.encode r) = some r
  closes : (json.encode r).toList.getLast? = some '}'
  one_line : (10 : UInt8) ∉ (json.encode r).toByteArray.data.toList
  fits : (requestLine json r).length ≤ MAX_LINE

def linesOf (json : Json) (rs : List Request) : Bytes := (rs.map (requestLine json)).flatten

/-- What a controller may have done. -/
def allowed (limited : Bool) (cmd : Command) : Bool :=
  !(limited && !(cmd = .info || cmd = .shutdown))

def dispatchedOf (limited : Bool) (rs : List Request) : List Command :=
  (rs.map Request.cmd).filter (allowed limited)

def ToController.answerTo {ρ : Type} : ToController ρ → Option Nat
  | .response id _ => some id
  | .event _ => none

section

variable {σ ρ : Type} {json : Json} {d : Daemon σ ρ} {s s' : Conn σ ρ} {hello : Request}
  {reqs : List Request} {limited : Bool}

/-- The first `k` of the lines were handled: the requests among them dispatched, each answered. -/
structure Conn.Counted (hello : Request) (limited : Bool) (reqs : List Request) (k : Nat)
    (s : Conn σ ρ) : Prop where
  count : k ≤ reqs.length + 1
  phase : match s.phase with
    | .greeting => k = 0
    | .conversing l => 0 < k ∧ l = limited
    | .gone why => (why = .endOfStream ∧ k = reqs.length + 1) ∨ why = .closing ∨ why = .helloTimeout
  dispatched : s.dispatched = dispatchedOf limited (reqs.take (k - 1))
  answered : s.out.filterMap ToController.answerTo = ((hello :: reqs).take k).map Request.id

/-- And the other lines are there, nothing of them lost. -/
def Conn.Complete (json : Json) (hello : Request) (reqs : List Request) (k : Nat)
    (s : Conn σ ρ) : Prop :=
  s.reading = true → s.taken ++ s.left = linesOf json ((hello :: reqs).drop k)

/-- A Hello that carries the token is answered once, and opens the conversation. -/
theorem Conn.counted_greet (hcount : s.Counted hello limited reqs 0)
    (hcmd : ∃ protocol, hello.cmd = .hello protocol d.token
      ∧ limited = decide (protocol ≠ PROTOCOL))
    (hdecode : json.decode (json.encode hello) = some hello) :
    (s.greet json d (json.encode hello)).Counted hello limited reqs 1 := by
  obtain ⟨protocol, hcmd, rfl⟩ := hcmd
  obtain ⟨id, cmd⟩ := hello
  obtain rfl : cmd = .hello protocol d.token := hcmd
  have hsame : sameToken d.token d.token = true := by simp [sameToken]
  unfold Conn.greet
  simp only [hdecode, hsame, Bool.not_true, Bool.false_eq_true, if_false]
  refine ⟨by omega, ⟨Nat.one_pos, rfl⟩, ?_, ?_⟩
  · exact hcount.dispatched
  · have hanswered := hcount.answered
    simp only [Conn.say, List.filterMap_append, hanswered]
    rfl

/-- Each request after it is dispatched and answered once. -/
theorem Conn.counted_converse {k : Nat} {r : Request} (hphase : s.phase = .conversing limited)
    (hcount : s.Counted hello limited reqs k) (hk : 0 < k) (hr : (hello :: reqs)[k]? = some r)
    (hdecode : json.decode (json.encode r) = some r) :
    (s.converse json d limited (json.encode r)).Counted hello limited reqs (k + 1) := by
  obtain ⟨k, rfl⟩ : ∃ j, k = j + 1 := ⟨k - 1, by omega⟩
  have hr : reqs[k]? = some r := hr
  obtain ⟨hlt, _⟩ := List.getElem?_eq_some_iff.mp hr
  -- whichever answer is given, it is the one to the request read
  have hanswered : ∀ result : Except String ρ,
      (s.say (.response r.id result)).out.filterMap ToController.answerTo
        = ((hello :: reqs).take (k + 1 + 1)).map Request.id := by
    intro result
    have hnext : ((hello :: reqs).take (k + 1 + 1)) = (hello :: reqs).take (k + 1) ++ [r] := by
      rw [List.take_add_one (i := k + 1), List.getElem?_cons_succ, hr]
      rfl
    rw [hnext, List.map_append, ← hcount.answered]
    simp [Conn.say, ToController.answerTo]
  -- what was dispatched, and what one request adds to it
  have hdispatched : s.dispatched = dispatchedOf limited (reqs.take k) := hcount.dispatched
  have hnext : dispatchedOf limited (reqs.take (k + 1))
      = dispatchedOf limited (reqs.take k) ++ [r.cmd].filter (allowed limited) := by
    rw [dispatchedOf, List.take_add_one, hr, List.map_append, List.filter_append]
    rfl
  unfold Conn.converse
  rw [hdecode]
  simp only
  -- a request that is not allowed is answered and not dispatched
  split
  · next hrefused =>
    refine ⟨by omega, ?_, ?_, hanswered _⟩
    · simp only [Conn.say, hphase]
      exact ⟨by omega, trivial⟩
    · show s.dispatched = dispatchedOf limited (reqs.take (k + 1))
      have hno : allowed limited r.cmd = false := by simpa [allowed] using hrefused
      rw [hnext, hdispatched, List.filter_cons_of_neg (by simp [hno]), List.filter_nil,
        List.append_nil]
  -- one that is goes to the daemon
  · next hallowed =>
    refine ⟨by omega, ?_, ?_, hanswered _⟩
    · simp only [Conn.say, hphase]
      exact ⟨by omega, trivial⟩
    · show s.dispatched ++ [r.cmd] = dispatchedOf limited (reqs.take (k + 1))
      have hyes : allowed limited r.cmd = true := by
        rw [allowed, Bool.eq_false_iff.mpr hallowed]
        rfl
      rw [hnext, hdispatched, List.filter_cons_of_pos hyes, List.filter_nil]

/-- The next line is there, whole. -/
theorem Conn.counted_onLine {k : Nat} {r : Request} (hreading : s.reading = true)
    (hcount : s.Counted hello limited reqs k) (hr : (hello :: reqs)[k]? = some r)
    (hsend : Sendable json r)
    (hcmd : ∃ protocol, hello.cmd = .hello protocol d.token
      ∧ limited = decide (protocol ≠ PROTOCOL)) :
    (s.onLine json d (requestLine json r)).Counted hello limited reqs (k + 1) := by
  have hphase := hcount.phase
  unfold Conn.onLine
  rw [lineText_requestLine hsend.closes]
  rcases reading_iff.mp hreading with hgreeting | ⟨l, hconversing⟩
  · rw [hgreeting] at hphase
    subst hphase
    obtain rfl : hello = r := Option.some.inj hr
    simp only [hgreeting]
    exact Conn.counted_greet ⟨hcount.count, by simp, hcount.dispatched,
      hcount.answered⟩ hcmd hsend.decodes
  · rw [hconversing] at hphase
    obtain ⟨hk, rfl⟩ := hphase
    simp only [hconversing]
    exact Conn.counted_converse rfl ⟨hcount.count, ⟨hk, rfl⟩, hcount.dispatched,
      hcount.answered⟩ hk hr hsend.decodes

/-- A half read line is a beginning of the next one. -/
theorem append_eq_line {taken left body more : Bytes}
    (h : taken ++ left = (body ++ [10]) ++ more) (htaken : 10 ∉ taken) :
    ∃ rest, body = taken ++ rest ∧ left = rest ++ 10 :: more := by
  rw [List.append_assoc] at h
  rcases List.append_eq_append_iff.mp h with ⟨rest, hbody, hleft⟩ | ⟨rest, hall, hrest⟩
  · exact ⟨rest, hbody, hleft⟩
  · cases rest with
    | nil => exact ⟨[], by simp [hall], hrest.symm⟩
    | cons b rest =>
      have hb : 10 = b := (List.cons.inj hrest).1
      exact absurd (hall ▸ List.mem_append_right body (hb ▸ List.mem_cons_self)) htaken

/-- No event comes while a line is half read. -/
def eventBetweenLines (s : Conn σ ρ) (l : ConnLabel σ) : Prop :=
  ∀ kind, l = .event kind → s.taken = []

instance (s : Conn σ ρ) : (l : ConnLabel σ) → Decidable (eventBetweenLines s l)
  | .event kind => decidable_of_iff (s.taken = []) ⟨fun h _ _ => h, fun h => h kind rfl⟩
  | .take _ | .eof | .closing | .helloTimeout | .elsewhere _ => isTrue nofun

/-- What is there of the next line, or nothing once there is none. -/
theorem Conn.Complete.next {k : Nat} (hcomplete : s.Complete json hello reqs k)
    (hreading : s.reading = true) (htaken : 10 ∉ s.taken) (hk : k ≤ reqs.length + 1)
    (hsend : ∀ r ∈ hello :: reqs, Sendable json r) :
    (k = reqs.length + 1 ∧ s.taken = [] ∧ s.left = [])
    ∨ ∃ r rest, (hello :: reqs)[k]? = some r ∧ Sendable json r
      ∧ requestLine json r = s.taken ++ rest ++ [10] ∧ 10 ∉ rest
      ∧ s.left = rest ++ 10 :: linesOf json ((hello :: reqs).drop (k + 1)) := by
  have hbytes := hcomplete hreading
  -- the next request is number `k`, if there are so many
  rcases Nat.lt_or_ge k (hello :: reqs).length with hlt | hge
  · have hr : (hello :: reqs)[k]? = some (hello :: reqs)[k] := List.getElem?_eq_getElem hlt
    have hsend := hsend _ (List.getElem_mem hlt)
    generalize (hello :: reqs)[k] = r at hr hsend
    rw [List.drop_eq_getElem?_toList_append, hr] at hbytes
    have hbytes : s.taken ++ s.left = ((json.encode r).toByteArray.data.toList ++ [10])
        ++ linesOf json ((hello :: reqs).drop (k + 1)) := hbytes
    obtain ⟨rest, hbody, hleft⟩ := append_eq_line hbytes htaken
    refine .inr ⟨r, rest, hr, hsend, ?_, fun hmem => hsend.one_line ?_, hleft⟩
    · rw [requestLine, hbody]
    · rw [hbody]
      exact List.mem_append_right _ hmem
  · rw [List.length_cons] at hge
    rw [List.drop_eq_nil_of_le (by rw [List.length_cons]; omega)] at hbytes
    obtain ⟨htaken, hleft⟩ := List.append_eq_nil_iff.mp hbytes
    exact .inl ⟨by omega, htaken, hleft⟩

/-- A step of a client that keeps to its requests, its bytes coming whole, goes on to the next of
them or reads on. -/
theorem Conn.onTrack_step {k : Nat} {l : ConnLabel σ}
    (hcmd : ∃ protocol, hello.cmd = .hello protocol d.token
      ∧ limited = decide (protocol ≠ PROTOCOL))
    (hsend : ∀ r ∈ hello :: reqs, Sendable json r) (hcount : s.Counted hello limited reqs k)
    (hcomplete : s.Complete json hello reqs k) (htaken : 10 ∉ s.taken)
    (hok : eventBetweenLines s l) (hl : s.step json d l = some s') :
    ∃ k, s'.Counted hello limited reqs k ∧ s'.Complete json hello reqs k := by
  have hphase := hcount.phase
  by_cases htake : ∃ n, l = .take n
  · obtain ⟨n, rfl⟩ := htake
    obtain ⟨hreading, m, hpos, hm, hmleft, hcases⟩ := take_cases hl htaken
    rcases hcomplete.next hreading htaken hcount.count hsend with
      ⟨_, hnone, hleft⟩ | ⟨r, rest, hr, hsendr, hline, hrest, hleft⟩
    · -- there is nothing to take
      have hmax : 0 < MAX_LINE := by decide
      rw [hleft] at hmleft
      rw [hnone] at hm
      simp only [List.length_nil] at hm hmleft
      omega
    · have hfits := hsendr.fits
      rw [hline, List.length_append, List.length_append] at hfits
      -- the line is there to its end, or part of it is
      rcases hcases with ⟨_, rfl⟩ | ⟨hmem, hlong, _⟩ | ⟨hmem, rfl⟩
      · have hfirst : throughNewline s.left = rest ++ [10] := by
          rw [hleft, throughNewline_append hrest]
          rfl
        have hafter : s.left.drop (rest ++ [10]).length
            = linesOf json ((hello :: reqs).drop (k + 1)) := by
          have hsplit : s.left = (rest ++ [10]) ++ linesOf json ((hello :: reqs).drop (k + 1)) := by
            rw [hleft, List.append_assoc]
            rfl
          rw [hsplit, List.drop_left]
        rw [hfirst, ← List.append_assoc, ← hline, hafter]
        -- what is left does not matter to what was counted
        have hcount' : ({ s with left := linesOf json ((hello :: reqs).drop (k + 1)) } :
            Conn σ ρ).Counted hello limited reqs k :=
          ⟨hcount.count, hcount.phase, hcount.dispatched, hcount.answered⟩
        refine ⟨k + 1, counted_onLine hreading hcount' hr hsendr hcmd, fun _ => ?_⟩
        rw [onLine_frame.1, onLine_frame.2]
        rfl
      · -- a line that fits is not too long
        have hshort : m ≤ rest.length := by
          by_contra hlt
          refine hmem ?_
          rw [hleft, List.take_append, List.take_of_length_le (by omega)]
          obtain ⟨j, hj⟩ : ∃ j, m - rest.length = j + 1 := ⟨m - rest.length - 1, by omega⟩
          rw [hj, List.take_succ_cons]
          exact List.mem_append_right _ List.mem_cons_self
        rw [List.length_append, List.length_take, List.length_singleton] at *
        omega
      · refine ⟨k, ⟨hcount.count, hcount.phase, hcount.dispatched, hcount.answered⟩, fun _ => ?_⟩
        show s.taken ++ s.left.take m ++ s.left.drop m = _
        rw [List.append_assoc, List.take_append_drop]
        exact hcomplete hreading
  · by_cases heof : l = .eof
    · subst heof
      obtain ⟨hreading, hleft, hcases⟩ := eof_cases hl
      rcases hcomplete.next hreading htaken hcount.count hsend with
        ⟨hall, hnone, _⟩ | ⟨r, rest, _, _, _, _, hmore⟩
      · rcases hcases with ⟨_, rfl⟩ | ⟨hsome, _⟩
        · exact ⟨k, ⟨hcount.count, .inl ⟨rfl, hall⟩, hcount.dispatched, hcount.answered⟩, nofun⟩
        · exact absurd hnone hsome
      · -- a line is still to come
        rw [hleft] at hmore
        cases rest <;> cases hmore
    · have hevent : ∀ kind : EventKind, (s.say (.event kind)).out.filterMap ToController.answerTo
          = ((hello :: reqs).take k).map Request.id := by
        intro kind
        rw [← hcount.answered]
        simp [Conn.say, ToController.answerTo]
      rcases other_cases hl (fun n hn => htake ⟨n, hn⟩) heof with
        ⟨l', kind, rfl, hconversing, rfl⟩ | ⟨l', hconversing, rfl⟩ | ⟨hgreeting, rfl⟩ | ⟨_, rfl⟩
      -- an event empties the line, which is empty
      · have hnone := hok kind rfl
        refine ⟨k, ⟨hcount.count, hphase, hcount.dispatched, hevent kind⟩, fun hreading => ?_⟩
        have hbytes := hcomplete hreading
        rwa [hnone] at hbytes
      · exact ⟨k, ⟨hcount.count, .inr (.inl rfl), hcount.dispatched, hevent _⟩, nofun⟩
      · exact ⟨k, ⟨hcount.count, .inr (.inr rfl), hcount.dispatched, hcount.answered⟩, nofun⟩
      · exact ⟨k, ⟨hcount.count, hphase, hcount.dispatched, hcount.answered⟩, hcomplete⟩

/-- Everything sent was handled in order, or is still there to be. -/
def Conn.Served (json : Json) (hello : Request) (limited : Bool) (reqs : List Request)
    (s : Conn σ ρ) : Prop :=
  ∃ k, s.Counted hello limited reqs k ∧ s.Complete json hello reqs k

/-- In every run in which events come between lines, a controller that shows the token has its
requests dispatched, each once and in order, and each answered; and in every run whatever,
nothing is dispatched before the token was shown. -/
theorem converse_serves (json : Json) (d : Daemon σ ρ) :
    (∀ hello reqs protocol, hello.cmd = .hello protocol d.token →
      (∀ r ∈ hello :: reqs, Sendable json r) →
      ∀ s, (connLts json d (linesOf json (hello :: reqs))).Reach eventBetweenLines s →
        s.Served json hello (decide (protocol ≠ PROTOCOL)) reqs)
    ∧ ∀ stream s, (connLts json d stream).Reachable s → s.dispatched ≠ [] →
      ∃ id protocol, firstRequest json stream = some ⟨id, .hello protocol d.token⟩
        ∧ (protocol ≠ PROTOCOL → ∀ cmd ∈ s.dispatched, cmd = .info ∨ cmd = .shutdown) := by
  refine ⟨fun hello reqs protocol hcmd hsend s hs => ?_,
    fun stream s hs hany => (Conn.vetted hs).2.dispatched hany⟩
  refine hs.invariant (fun s h => ?_) fun s l s' hs h hok hl => ?_
  · obtain ⟨session, rfl⟩ := h
    exact ⟨0, ⟨Nat.zero_le _, rfl, rfl, rfl⟩, fun _ => rfl⟩
  · obtain ⟨k, hcount, hcomplete⟩ := h
    exact Conn.onTrack_step ⟨protocol, hcmd, rfl⟩ hsend hcount hcomplete
      (Conn.vetted hs.reachable).1 hok hl

end

/-! ### An event within a line -/

def helloRequest : Request := ⟨1, .hello 7 "t"⟩

def subscribeRequest : Request := ⟨2, .subscribe⟩

def statusRequest : Request := ⟨3, .status⟩

/-- The JSON texts of these requests. -/
def someJson : Json where
  encode r :=
    if r = helloRequest then
      "\x7b\"id\":1,\"cmd\":\"hello\",\"protocol\":7,\"token\":\"t\"\x7d"
    else if r = subscribeRequest then "\x7b\"id\":2,\"cmd\":\"subscribe\"\x7d"
    else "\x7b\"id\":3,\"cmd\":\"status\"\x7d"
  decode text :=
    if text = "\x7b\"id\":1,\"cmd\":\"hello\",\"protocol\":7,\"token\":\"t\"\x7d" then
      some helloRequest
    else if text = "\x7b\"id\":2,\"cmd\":\"subscribe\"\x7d" then some subscribeRequest
    else if text = "\x7b\"id\":3,\"cmd\":\"status\"\x7d" then some statusRequest
    else none

/-- A daemon whose session does nothing. -/
def idleDaemon : Daemon Unit Unit := ⟨"t", fun _ => (), (), fun _ _ => (.ok (), ())⟩

/-- The three requests read back as they are written. -/
theorem someJson_sendable (r : Request)
    (hr : r ∈ [helloRequest, subscribeRequest, statusRequest]) : Sendable someJson r := by
  have hall : [helloRequest, subscribeRequest, statusRequest].all fun r =>
      someJson.decode (someJson.encode r) = some r
        && ((someJson.encode r).toList.getLast? = some '}'
          && !(someJson.encode r).toByteArray.data.toList.contains 10
          && (requestLine someJson r).length ≤ 50) := by
    decide +kernel
  have hr := List.all_eq_true.mp hall r hr
  simp only [Bool.and_eq_true, decide_eq_true_eq, Bool.not_eq_true', List.contains_eq_mem,
    decide_eq_false_iff_not] at hr
  have hmax : 50 ≤ MAX_LINE := by decide
  exact ⟨hr.1, hr.2.1.1, hr.2.1.2, hr.2.2.trans hmax⟩

/-- A greeting and two requests: both are dispatched, each line is answered once. -/
theorem converse_serves_three : ∃ s : Conn Unit Unit, s.dispatched = [.subscribe, .status]
    ∧ s.Served someJson helloRequest false [subscribeRequest, statusRequest]
    ∧ ∃ id protocol,
      firstRequest someJson (linesOf someJson [helloRequest, subscribeRequest, statusRequest])
        = some ⟨id, .hello protocol "t"⟩
      ∧ (protocol ≠ PROTOCOL → ∀ cmd ∈ s.dispatched, cmd = .info ∨ cmd = .shutdown) := by
  -- an event comes between two lines; the lines are cut anywhere
  have hend : ((connLts someJson idleDaemon
      (linesOf someJson [helloRequest, subscribeRequest, statusRequest])).exec eventBetweenLines
        { left := linesOf someJson [helloRequest, subscribeRequest, statusRequest], session := () }
        [.take 48, .take 27, .event .log, .take 5, .take 19]).any
      (fun s => s.dispatched = [.subscribe, .status]) := by
    decide +kernel
  obtain ⟨s, hs, hend⟩ := (Option.any_eq_true _ _).mp hend
  have hreach : (connLts someJson idleDaemon (linesOf someJson
      [helloRequest, subscribeRequest, statusRequest])).Reach eventBetweenLines s :=
    Lts.reach_of_exec ⟨(), rfl⟩ hs
  have hdispatched : s.dispatched = [.subscribe, .status] := by simpa using hend
  have hserves := converse_serves someJson idleDaemon
  exact ⟨s, hdispatched, hserves.1 helloRequest [subscribeRequest, statusRequest] PROTOCOL rfl
    someJson_sendable s hreach, hserves.2 _ s hreach.reachable (by rw [hdispatched]; nofun)⟩

/-- An event comes after five bytes of the third request: these are gone, the rest is not
understood, and the request is never dispatched. -/
theorem half_line_lost : ∃ s,
    (connLts someJson idleDaemon
      (linesOf someJson [helloRequest, subscribeRequest, statusRequest])).Reachable s
    ∧ (s.phase = .conversing false ∧ s.taken = [] ∧ s.left = [] ∧ s.dispatched = [.subscribe])
    ∧ ¬ s.Served someJson helloRequest false [subscribeRequest, statusRequest] := by
  have hend : ((connLts someJson idleDaemon
      (linesOf someJson [helloRequest, subscribeRequest, statusRequest])).run
        { left := linesOf someJson [helloRequest, subscribeRequest, statusRequest], session := () }
        [.take 48, .take 27, .take 5, .event .log, .take 19]).any
      (fun s => (decide (s.phase = .conversing false) && decide (s.taken = [])
        && decide (s.left = []) && decide (s.dispatched = [.subscribe]))
        && decide (s.out.filterMap ToController.answerTo = [1, 2, 0])) := by
    decide +kernel
  obtain ⟨s, hs, hend⟩ := (Option.any_eq_true _ _).mp hend
  simp only [Bool.and_eq_true, decide_eq_true_eq] at hend
  obtain ⟨⟨⟨⟨hphase, htaken⟩, hleft⟩, hdispatched⟩, hout⟩ := hend
  refine ⟨s, Lts.reachable_of_run ⟨(), rfl⟩ hs, ⟨hphase, htaken, hleft, hdispatched⟩, ?_⟩
  intro ⟨k, hcount, _⟩
  -- there is no request number 0
  have hanswered := hcount.answered
  rw [hout] at hanswered
  have hmem : 0 ∈ [helloRequest, subscribeRequest, statusRequest].map Request.id := by
    have : 0 ∈ ([helloRequest, subscribeRequest, statusRequest].take k).map Request.id :=
      hanswered ▸ by decide
    exact (List.map_subset Request.id (List.take_subset _ _)) this
  revert hmem
  decide

end GeserDesk
