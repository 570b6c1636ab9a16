import GeserDesk.Client.Retry
import GeserDesk.Lib.Transition
import GeserDesk.Server.Handshake
import GeserDesk.Server.KeepAlive

/-!
# The two ends of a handshake

`client_handshake` of `geserdesk-client/src/net.rs` against `handshake` and `handle_client` of
`geserdesk-server/src/net.rs`, over a stream that delivers in order until it breaks. Trust, the
desk and the names that are taken are whatever they are at the moment the server looks; either end
gives up whenever it likes, and what is on its way when the stream breaks is lost from some point
on. The two programs may speak different versions of the protocol.

* **`greeting_agrees`**: a client that is connected has the version, the keep-alive and the options
  the server meant and was let in; one that was turned away was turned away for the reason it is
  told; neither is ever sent a message it has no place for.
* **`awaiting_approval_iff`**: the client shows that it waits for approval where the server does not
  know its certificate, or where its own name reads as if that were so.
-/

namespace GeserDesk

/-! ## The server's end

What the server says to a client that has said hello. -/

/-- What `handle_client` goes by on one connection. -/
structure Greeter where
  version : Version := protocolVersion
  layout : Layout
  options : Options
  /-- With TLS, the certificate the client showed. -/
  tls : Option (Option Fingerprint)
  /-- What `{:?}` writes of a text between its quotation marks. -/
  escaped : String → String

namespace Greeter

def quoted (g : Greeter) (name : String) : String := "\"" ++ g.escaped name ++ "\""

/-- What a client is told whose name is not on the desk. -/
def notListed (g : Greeter) (name : String) : String :=
  "no screen named " ++ g.quoted name ++ " in the server config"

def alreadyConnected (g : Greeter) (name : String) : String :=
  "screen " ++ g.quoted name ++ " is already connected"

/-- The closure `authorize`, or what the client is told. -/
def authorize (g : Greeter) (trust : Trust) (name : String) : Except String Unit :=
  match g.tls with
  | none => .ok ()
  | some none => .error "no client certificate"
  | some (some fp) =>
    match trust.check name fp with
    | .trusted => .ok ()
    | .mismatch _ => .error ("this screen is registered with a different certificate; "
        ++ "approve the new one on the server")
    | .unknown => .error ("waiting for approval on the server (this client's fingerprint is "
        ++ fp.toText ++ ")")

/-- `handshake`, up to its first answer: who is let in, or why not and what it is told. -/
def handshake (g : Greeter) (trust : Trust) (nameTaken : Bool) :
    ClientMsg → Except (Refusal × ServerMsg) (ScreenInfo × Version)
  | .hello version screen =>
    match g.version.negotiate version with
    | none => .error (.incompatible version, .incompatible g.version)
    | some negotiated =>
      let listed := g.layout.hasScreen screen.name
      if !listed && !(g.tls.isSome && validScreenName screen.name) then
        .error (.unknownScreen screen.name, .rejected (g.notListed screen.name))
      else
        match g.authorize trust screen.name with
        | .error reason => .error (.untrusted screen.name, .rejected reason)
        | .ok () =>
          if !listed then .error (.unknownScreen screen.name, .rejected (g.notListed screen.name))
          else if nameTaken then
            .error (.nameTaken screen.name, .rejected (g.alreadyConnected screen.name))
          else .ok (screen, negotiated)
  | _ => .error (.expectedHello, .close .protocolError)

end Greeter

/-! ## The client's end

What the client makes of it, message by message. -/

/-- What a handshake gives the client. -/
structure Connected where
  version : Version
  keepaliveMs : Nat
  options : Options
deriving DecidableEq

/-- Where `client_handshake` stands. -/
inductive ClientGreeting where
  /-- `Hello` is not sent yet. -/
  | hello
  | reply
  /-- `Welcome` has come, and `SetOptions` is to follow. -/
  | options (version : Version) (keepaliveMs : Nat)
  | connected (c : Connected)
  | failed (e : ConnectFailure)
deriving DecidableEq

namespace ClientGreeting

/-- A message comes. Once connected, it goes to the session. -/
def hear : ClientGreeting → ServerMsg → ClientGreeting
  | reply, .welcome version keepalive => options version keepalive
  | reply, .incompatible version => failed (.incompatible version)
  | reply, .rejected reason => failed (.rejected reason)
  | reply, _ => failed (.unexpected "first reply")
  | options version keepalive, .setOptions o => connected ⟨version, keepalive, o⟩
  | options .., _ => failed (.unexpected "expected SetOptions")
  | stage, _ => stage

/-- It reads from the stream. -/
def reads : ClientGreeting → Bool
  | reply | options .. | connected _ => true
  | hello | failed _ => false

/-- The handshake is under way. -/
def waits : ClientGreeting → Bool
  | hello | reply | options .. => true
  | connected _ | failed _ => false

end ClientGreeting

/-- The stream failed, or it took too long. -/
def ConnectFailure.lostTouch : ConnectFailure → Bool
  | codec _ | handshakeTimeout => true
  | _ => false

/-! ## Both, and what is between them

The two ends with the line between them, which may break anywhere. -/

structure Greeting where
  server : HandshakeStage := .hello
  client : ClientGreeting := .hello
  toServer : List ClientMsg := []
  toClient : List ServerMsg := []
  broken : Bool := false

inductive GreetLabel where
  /-- The client sends `Hello`. -/
  | greet
  /-- The server takes it, with the trust and the name as they are, and says no, if it is no. -/
  | answer (trust : Trust) (nameTaken : Bool) (sent : Bool)
  /-- It sends `Welcome` or `SetOptions`. -/
  | welcome
  /-- `register`, which finds the name free or not. -/
  | claim (free : Bool)
  /-- Its session sends. -/
  | talk (msg : ServerMsg)
  /-- The session ends, and so does the registration. -/
  | leave
  | unregister
  /-- The server's end fails, or waits no longer. -/
  | abort
  /-- The client reads a message. -/
  | read
  /-- The client's session sends. -/
  | say (msg : ClientMsg)
  | giveUp (e : ConnectFailure)
  /-- The stream breaks, and so much of what is on its way still arrives. -/
  | cut (arriving departing : Nat)

namespace Greeting

/-- The server writes to the stream. -/
def tell (s : Greeting) (msg : ServerMsg) : Greeting :=
  if s.broken then s else { s with toClient := s.toClient ++ [msg] }

/-- The client writes to the stream. -/
def say (s : Greeting) (msg : ClientMsg) : Greeting :=
  if s.broken then s else { s with toServer := s.toServer ++ [msg] }

def step (g : Greeter) (version : Version) (screen : ScreenInfo) (s : Greeting) :
    GreetLabel → Option Greeting
  | .greet =>
    match s.client with
    | .hello => some { s.say (.hello version screen) with client := .reply }
    | _ => none
  | .answer trust nameTaken sent =>
    match s.server, s.toServer with
    | .hello, msg :: rest =>
      match g.handshake trust nameTaken msg with
      | .ok (screen, negotiated) =>
        some { s with server := .welcome screen negotiated, toServer := rest }
      | .error (why, reply) =>
        if sent then some { s.tell reply with server := .refused why, toServer := rest }
        else some { s with server := .done, toServer := rest }
    | _, _ => none
  | .welcome =>
    match s.server with
    | .welcome screen negotiated =>
      some { s.tell (.welcome negotiated KEEPALIVE_INTERVAL) with
        server := .options screen negotiated }
    | .options screen negotiated =>
      some { s.tell (.setOptions g.options) with server := .accepted screen negotiated }
    | _ => none
  | .claim free =>
    match s.server with
    | .accepted screen _ =>
      some { s with server := if free then .session screen.name else .done }
    | _ => none
  | .talk msg =>
    match s.server with
    | .session _ => some (s.tell msg)
    | _ => none
  | .leave =>
    match s.server with
    | .session name => some { s with server := .closing name }
    | _ => none
  | .unregister =>
    match s.server with
    | .closing _ => some { s with server := .done }
    | _ => none
  | .abort =>
    match s.server with
    | .hello | .welcome .. | .options .. => some { s with server := .done }
    | _ => none
  | .read =>
    match s.client.reads, s.toClient with
    | true, msg :: rest => some { s with client := s.client.hear msg, toClient := rest }
    | _, _ => none
  | .say msg =>
    match s.client with
    | .connected _ => some (s.say msg)
    | _ => none
  | .giveUp e =>
    if s.client.waits && e.lostTouch then some { s with client := .failed e } else none
  | .cut arriving departing =>
    if s.broken then none
    else some { s with
      toClient := s.toClient.take arriving
      toServer := s.toServer.take departing
      broken := true }

end Greeting

/-- A connection between a client of this version that reports this screen, and the server. -/
def greetings (g : Greeter) (version : Version) (screen : ScreenInfo) :
    Lts Greeting GreetLabel where
  init s := s = {}
  step := Greeting.step g version screen

/-! ## What the server has said

What has been said so far, by where the server stands. -/

section Runs

variable {g : Greeter} {version : Version} {screen : ScreenInfo}

/-- The server says no to this `Hello`, for this reason, and this is what it sends. -/
def Greeter.Refuses (g : Greeter) (version : Version) (screen : ScreenInfo) (why : Refusal)
    (reply : ServerMsg) : Prop :=
  ∃ trust nameTaken, g.handshake trust nameTaken (.hello version screen) = .error (why, reply)

/-- What the server has written to a client, by where it stands. -/
inductive Spoken (g : Greeter) (version : Version) (screen : ScreenInfo) :
    HandshakeStage → List ServerMsg → Prop where
  | hello : Spoken g version screen .hello []
  | refused {why : Refusal} {reply : ServerMsg} (h : g.Refuses version screen why reply) :
      Spoken g version screen (.refused why) [reply]
  | welcome {v : Version} (h : g.version.negotiate version = some v) :
      Spoken g version screen (.welcome screen v) []
  | options {v : Version} (h : g.version.negotiate version = some v) :
      Spoken g version screen (.options screen v) [.welcome v KEEPALIVE_INTERVAL]
  | accepted {v : Version} (h : g.version.negotiate version = some v) :
      Spoken g version screen (.accepted screen v)
        [.welcome v KEEPALIVE_INTERVAL, .setOptions g.options]
  | session {v : Version} (h : g.version.negotiate version = some v) (more : List ServerMsg) :
      Spoken g version screen (.session screen.name)
        (.welcome v KEEPALIVE_INTERVAL :: .setOptions g.options :: more)
  | closing {v : Version} (h : g.version.negotiate version = some v) (more : List ServerMsg) :
      Spoken g version screen (.closing screen.name)
        (.welcome v KEEPALIVE_INTERVAL :: .setOptions g.options :: more)
  /-- It has gone without a word, -/
  | mute : Spoken g version screen .done []
  /-- between its two messages, -/
  | halfway {v : Version} (h : g.version.negotiate version = some v) :
      Spoken g version screen .done [.welcome v KEEPALIVE_INTERVAL]
  /-- or after them. -/
  | finished {v : Version} (h : g.version.negotiate version = some v) (more : List ServerMsg) :
      Spoken g version screen .done
        (.welcome v KEEPALIVE_INTERVAL :: .setOptions g.options :: more)

/-- What the client has made of what it has read. -/
inductive Listened : ClientGreeting → List ServerMsg → Prop where
  | hello : Listened .hello []
  | reading (read : List ServerMsg) : Listened (read.foldl ClientGreeting.hear .reply) read
  | lost {e : ConnectFailure} (h : e.lostTouch = true) (read : List ServerMsg) :
      Listened (.failed e) read

/-- The invariant of a greeting. -/
structure GreetInv (g : Greeter) (version : Version) (screen : ScreenInfo) (s : Greeting) :
    Prop where
  /-- All that is written is read or on its way, as long as the stream holds. -/
  stream : ∃ read said, Spoken g version screen s.server said ∧ Listened s.client read
    ∧ read ++ s.toClient <+: said ∧ (s.broken = false → read ++ s.toClient = said)
  /-- The server waits for one message at most, which is a `Hello`. -/
  first : s.server = .hello → s.toServer = []
    ∨ s.toServer = [.hello version screen] ∧ s.client ≠ .hello
  sent : s.server = .hello → s.broken = false → s.client = .reply →
    s.toServer = [.hello version screen]

/-- A handshake that ends well ends with the screen the client sent, and the version negotiated. -/
theorem handshake_ok {trust : Trust} {nameTaken : Bool} {who : ScreenInfo} {v : Version}
    (h : g.handshake trust nameTaken (.hello version screen) = .ok (who, v)) :
    who = screen ∧ g.version.negotiate version = some v := by
  unfold Greeter.handshake at h
  dsimp only at h
  split at h
  · cases h
  · next negotiated hv =>
    split at h
    · cases h
    · split at h
      · cases h
      · split at h
        · cases h
        · split at h
          · cases h
          · cases h
            exact ⟨rfl, hv⟩

/-- A refusal is one of the version, or one the client is told in words. -/
theorem refuses_cases {why : Refusal} {reply : ServerMsg} (h : g.Refuses version screen why reply) :
    (why = .incompatible version ∧ g.version.negotiate version = none
        ∧ reply = .incompatible g.version)
      ∨ ∃ reason, reply = .rejected reason := by
  obtain ⟨trust, nameTaken, h⟩ := h
  unfold Greeter.handshake at h
  dsimp only at h
  split at h
  · next hv =>
    cases h
    exact .inl ⟨rfl, hv, rfl⟩
  · right
    split at h
    · cases h
      exact ⟨_, rfl⟩
    · split at h
      · cases h
        exact ⟨_, rfl⟩
      · split at h
        · cases h
          exact ⟨_, rfl⟩
        · split at h
          · cases h
            exact ⟨_, rfl⟩
          · cases h

/-- A client that is connected takes no further part in the greeting. -/
theorem foldl_hear_connected (c : Connected) (msgs : List ServerMsg) :
    msgs.foldl ClientGreeting.hear (.connected c) = .connected c := by
  induction msgs with
  | nil => rfl
  | cons msg rest ih => exact ih

/-! ## A step

The invariant for each step of the two ends and of the line. -/

/-- Something is written: it is on its way, unless the stream is broken. -/
theorem stream_tell {s : Greeting} {read said : List ServerMsg} (msg : ServerMsg)
    (hpre : read ++ s.toClient <+: said) (hall : s.broken = false → read ++ s.toClient = said) :
    read ++ (s.tell msg).toClient <+: said ++ [msg]
      ∧ ((s.tell msg).broken = false → read ++ (s.tell msg).toClient = said ++ [msg]) := by
  unfold Greeting.tell
  by_cases hb : s.broken
  · rw [if_pos hb]
    exact ⟨hpre.trans (List.prefix_append ..), fun h => absurd hb (by simp [h])⟩
  · rw [if_neg hb]
    have hsaid : read ++ s.toClient = said := hall (by simpa using hb)
    have hnew : read ++ (s.toClient ++ [msg]) = said ++ [msg] := by
      rw [← List.append_assoc, hsaid]
    exact ⟨hnew ▸ List.prefix_rfl, fun _ => hnew⟩

/-- A word to the client is on its way, not heard yet. -/
@[simp] theorem tell_client (s : Greeting) (msg : ServerMsg) : (s.tell msg).client = s.client := by
  unfold Greeting.tell
  split <;> rfl

/-- A word to the client leaves the other direction alone. -/
@[simp] theorem tell_toServer (s : Greeting) (msg : ServerMsg) :
    (s.tell msg).toServer = s.toServer := by
  unfold Greeting.tell
  split <;> rfl

/-- A word to the client leaves the server where it is. -/
@[simp] theorem tell_server (s : Greeting) (msg : ServerMsg) : (s.tell msg).server = s.server := by
  unfold Greeting.tell
  split <;> rfl

/-- The server goes on to another stage, and writes nothing. -/
theorem GreetInv.goes {s s' : Greeting} (h : GreetInv g version screen s)
    (hstage : ∀ said, Spoken g version screen s.server said → Spoken g version screen s'.server said)
    (hserver : s'.server ≠ .hello) (hclient : s'.client = s.client)
    (hto : s'.toClient = s.toClient) (hbroken : s'.broken = s.broken) :
    GreetInv g version screen s' := by
  obtain ⟨read, said, hspoken, hheard, hpre, hall⟩ := h.stream
  refine ⟨⟨read, said, hstage said hspoken, hclient ▸ hheard, ?_, ?_⟩, ?_, ?_⟩
  · rw [hto]
    exact hpre
  · rw [hto, hbroken]
    exact hall
  · intro hs
    exact absurd hs hserver
  · intro hs
    exact absurd hs hserver

/-- The server goes on to another stage and writes a message. -/
theorem GreetInv.tells {s : Greeting} (h : GreetInv g version screen s) (stage : HandshakeStage)
    (msg : ServerMsg) (rest : List ClientMsg)
    (hstage : ∀ said, Spoken g version screen s.server said →
      Spoken g version screen stage (said ++ [msg]))
    (hserver : stage ≠ .hello) :
    GreetInv g version screen { s.tell msg with server := stage, toServer := rest } := by
  obtain ⟨read, said, hspoken, hheard, hpre, hall⟩ := h.stream
  obtain ⟨hpre', hall'⟩ := stream_tell msg hpre hall
  refine ⟨⟨read, said ++ [msg], hstage said hspoken, ?_, hpre', hall'⟩, ?_, ?_⟩
  · rw [tell_client]
    exact hheard
  · intro hs
    exact absurd hs hserver
  · intro hs
    exact absurd hs hserver

/-- Nothing the server says makes a client that has said Hello say it again. -/
theorem hear_ne_hello {stage : ClientGreeting} (h : stage ≠ .hello) (msg : ServerMsg) :
    stage.hear msg ≠ .hello := by
  unfold ClientGreeting.hear
  split <;> simp_all

/-- However much the server says, it never does. -/
theorem foldl_hear_ne_hello (msgs : List ServerMsg) {stage : ClientGreeting}
    (h : stage ≠ .hello) : msgs.foldl ClientGreeting.hear stage ≠ .hello := by
  induction msgs generalizing stage with
  | nil => exact h
  | cons msg rest ih => exact ih (hear_ne_hello h msg)

/-- A client that has yet to say Hello has heard nothing. -/
theorem heard_hello {read : List ServerMsg} (h : Listened .hello read) : read = [] := by
  generalize hstage : ClientGreeting.hello = stage at h
  cases h with
  | hello => rfl
  | reading => exact absurd hstage.symm (foldl_hear_ne_hello read (by simp))
  | lost => cases hstage

/-- What a client that reads has made of it all. -/
theorem heard_reads {client : ClientGreeting} {read : List ServerMsg} (hreads : client.reads = true)
    (h : Listened client read) : client = read.foldl ClientGreeting.hear .reply := by
  cases h with
  | hello => cases hreads
  | reading => rfl
  | lost => cases hreads

/-- The client sends `Hello`. -/
theorem GreetInv.greets {s : Greeting} (h : GreetInv g version screen s)
    (hclient : s.client = .hello) :
    GreetInv g version screen { s.say (.hello version screen) with client := .reply } := by
  obtain ⟨read, said, hspoken, hheard, hpre, hall⟩ := h.stream
  have hread : read = [] := heard_hello (hclient ▸ hheard)
  subst hread
  have hnone : s.server = .hello → s.toServer = [] := by
    intro hs
    rcases h.first hs with hnil | ⟨-, hne⟩
    · exact hnil
    · exact absurd hclient hne
  unfold Greeting.say
  by_cases hb : s.broken
  · rw [if_pos hb]
    refine ⟨⟨[], said, hspoken, .reading [], hpre, hall⟩, fun hs => .inl (hnone hs), ?_⟩
    intro _ hwhole
    rw [hb] at hwhole
    cases hwhole
  · rw [if_neg hb]
    refine ⟨⟨[], said, hspoken, .reading [], hpre, hall⟩, ?_, ?_⟩
    · intro hs
      exact .inr ⟨by simp [hnone hs], by simp⟩
    · intro hs _ _
      simp [hnone hs]

/-- The client reads a message. -/
theorem GreetInv.hears {s : Greeting} (h : GreetInv g version screen s) {msg : ServerMsg}
    {rest : List ServerMsg} (hreads : s.client.reads = true) (hto : s.toClient = msg :: rest) :
    GreetInv g version screen { s with client := s.client.hear msg, toClient := rest } := by
  obtain ⟨read, said, hspoken, hheard, hpre, hall⟩ := h.stream
  have hassoc : read ++ s.toClient = (read ++ [msg]) ++ rest := by rw [hto]; simp
  have hfold : s.client = read.foldl ClientGreeting.hear .reply := heard_reads hreads hheard
  -- While the server waits for `Hello` it has written nothing that could be read.
  have hsilent : s.server ≠ .hello := by
    intro hs
    rw [hs] at hspoken
    cases hspoken
    rw [hto] at hpre
    simp at hpre
  refine ⟨⟨read ++ [msg], said, hspoken, ?_, hassoc ▸ hpre, fun hb => hassoc ▸ hall hb⟩,
    fun hs => absurd hs hsilent, fun hs => absurd hs hsilent⟩
  have hnext : s.client.hear msg = (read ++ [msg]).foldl ClientGreeting.hear .reply := by
    rw [List.foldl_append, ← hfold]
    rfl
  exact hnext ▸ .reading _

/-- The client's session writes; the server has answered its `Hello` long before. -/
theorem GreetInv.says {s : Greeting} (h : GreetInv g version screen s) {c : Connected}
    (hclient : s.client = .connected c) (msg : ClientMsg) :
    GreetInv g version screen (s.say msg) := by
  obtain ⟨read, said, hspoken, hheard, hpre, hall⟩ := h.stream
  have hanswered : s.server ≠ .hello := by
    intro hs
    rw [hs] at hspoken
    cases hspoken
    have hread : read = [] := (List.append_eq_nil_iff.mp (List.prefix_nil.mp hpre)).1
    subst hread
    have hfold := heard_reads (by rw [hclient]; rfl) hheard
    rw [hclient] at hfold
    cases hfold
  unfold Greeting.say
  split
  · exact h
  · exact ⟨⟨read, said, hspoken, hheard, hpre, hall⟩, fun hs => absurd hs hanswered,
      fun hs => absurd hs hanswered⟩

/-! ### Label by label

Each step of the server's half is told to the client (`tells`) or goes on in silence (`goes`), and
what it has said by then is what belongs to its new stage. -/

section

variable {s s' : Greeting}

/-- The server hears the `Hello`, and goes on to the `Welcome` or turns the client away, aloud if it
still can. -/
theorem GreetInv.answer_step {trust : Trust} {nameTaken : Bool} {sent : Bool}
    (h : GreetInv g version screen s)
    (hl : s.step g version screen (.answer trust nameTaken sent) = some s') :
    GreetInv g version screen s' := by
  unfold Greeting.step at hl
  dsimp only at hl
  split at hl
  · next msg rest hserver hto =>
    have hmsg : msg = .hello version screen := by
      rcases h.first hserver with hnil | ⟨hone, -⟩
      · rw [hnil] at hto
        cases hto
      · rw [hone] at hto
        exact (List.cons.inj hto).1.symm
    subst hmsg
    split at hl
    · next who v hok =>
      obtain ⟨rfl, hv⟩ := handshake_ok hok
      cases hl
      refine h.goes ?_ (by simp) rfl rfl rfl
      intro said hspoken
      rw [hserver] at hspoken
      cases hspoken
      exact .welcome hv
    · next why reply hno =>
      split at hl
      · cases hl
        refine h.tells _ _ _ ?_ (by simp)
        intro said hspoken
        rw [hserver] at hspoken
        cases hspoken
        exact .refused ⟨trust, nameTaken, hno⟩
      · cases hl
        refine h.goes ?_ (by simp) rfl rfl rfl
        intro said hspoken
        rw [hserver] at hspoken
        cases hspoken
        exact .mute
  · cases hl

/-- It sends `Welcome`, and then the options. -/
theorem GreetInv.welcome_step (h : GreetInv g version screen s)
    (hl : s.step g version screen .welcome = some s') : GreetInv g version screen s' := by
  unfold Greeting.step at hl
  dsimp only at hl
  split at hl
  · next who v hserver =>
    cases hl
    have hkept := h.tells (.options who v) (.welcome v KEEPALIVE_INTERVAL) s.toServer ?_ (by simp)
    · simpa using hkept
    · intro said hspoken
      rw [hserver] at hspoken
      cases hspoken with
      | welcome hv => exact .options hv
  · next who v hserver =>
    cases hl
    have hkept := h.tells (.accepted who v) (.setOptions g.options) s.toServer ?_ (by simp)
    · simpa using hkept
    · intro said hspoken
      rw [hserver] at hspoken
      cases hspoken with
      | options hv => exact .accepted hv
  · cases hl

/-- The name is claimed, or was meanwhile and the connection ends. -/
theorem GreetInv.claim_step {free : Bool} (h : GreetInv g version screen s)
    (hl : s.step g version screen (.claim free) = some s') : GreetInv g version screen s' := by
  unfold Greeting.step at hl
  dsimp only at hl
  split at hl
  · next who v hserver =>
    cases hl
    cases free with
    | true =>
      refine h.goes ?_ (by simp) rfl rfl rfl
      intro said hspoken
      rw [hserver] at hspoken
      cases hspoken with
      | accepted hv => exact .session hv []
    | false =>
      refine h.goes ?_ (by simp) rfl rfl rfl
      intro said hspoken
      rw [hserver] at hspoken
      cases hspoken with
      | accepted hv => exact .finished hv []
  · cases hl

/-- What a session sends comes after the greeting. -/
theorem GreetInv.talk_step {msg : ServerMsg} (h : GreetInv g version screen s)
    (hl : s.step g version screen (.talk msg) = some s') : GreetInv g version screen s' := by
  unfold Greeting.step at hl
  dsimp only at hl
  split at hl
  · next name hserver =>
    cases hl
    have hkept := h.tells (.session name) msg s.toServer ?_ (by simp)
    · have hsame : { s.tell msg with server := .session name, toServer := s.toServer }
          = s.tell msg := by
        rw [← hserver, ← tell_server s msg, ← tell_toServer s msg]
      rw [hsame] at hkept
      exact hkept
    · intro said hspoken
      rw [hserver] at hspoken
      cases hspoken with
      | session hv more => exact .session hv (more ++ [msg])
  · cases hl

/-- A session ends. -/
theorem GreetInv.leave_step (h : GreetInv g version screen s)
    (hl : s.step g version screen .leave = some s') : GreetInv g version screen s' := by
  unfold Greeting.step at hl
  dsimp only at hl
  split at hl
  · next name hserver =>
    cases hl
    refine h.goes ?_ (by simp) rfl rfl rfl
    intro said hspoken
    rw [hserver] at hspoken
    cases hspoken with
    | session hv more => exact .closing hv more
  · cases hl

/-- A session that has ended gives its name up. -/
theorem GreetInv.unregister_step (h : GreetInv g version screen s)
    (hl : s.step g version screen .unregister = some s') : GreetInv g version screen s' := by
  unfold Greeting.step at hl
  dsimp only at hl
  split at hl
  · next name hserver =>
    cases hl
    refine h.goes ?_ (by simp) rfl rfl rfl
    intro said hspoken
    rw [hserver] at hspoken
    cases hspoken with
    | closing hv more => exact .finished hv more
  · cases hl

/-- The server's half breaks off, with nothing said or in the middle. -/
theorem GreetInv.abort_step (h : GreetInv g version screen s)
    (hl : s.step g version screen .abort = some s') : GreetInv g version screen s' := by
  unfold Greeting.step at hl
  dsimp only at hl
  split at hl
  · next hserver =>
    cases hl
    refine h.goes ?_ (by simp) rfl rfl rfl
    intro said hspoken
    rw [hserver] at hspoken
    cases hspoken
    exact .mute
  · next hserver =>
    cases hl
    refine h.goes ?_ (by simp) rfl rfl rfl
    intro said hspoken
    rw [hserver] at hspoken
    cases hspoken
    exact .mute
  · next hserver =>
    cases hl
    refine h.goes ?_ (by simp) rfl rfl rfl
    intro said hspoken
    rw [hserver] at hspoken
    cases hspoken with
    | options hv => exact .halfway hv
  · cases hl

/-- The client gives up once nothing can come any more. -/
theorem GreetInv.giveUp_step {e : ConnectFailure} (h : GreetInv g version screen s)
    (hl : s.step g version screen (.giveUp e) = some s') : GreetInv g version screen s' := by
  unfold Greeting.step at hl
  dsimp only at hl
  split at hl
  · next hboth =>
    cases hl
    rw [Bool.and_eq_true] at hboth
    obtain ⟨read, said, hspoken, -, hpre, hall⟩ := h.stream
    refine ⟨⟨read, said, hspoken, .lost hboth.2 read, hpre, hall⟩, ?_, ?_⟩
    · intro hs
      exact (h.first hs).imp_right fun hone => ⟨hone.1, by simp⟩
    · intro _ _ hreply
      cases hreply
  · cases hl

/-- The stream breaks, and a part of what was on its way is lost. -/
theorem GreetInv.cut_step {arriving : Nat} {departing : Nat} (h : GreetInv g version screen s)
    (hl : s.step g version screen (.cut arriving departing) = some s') :
    GreetInv g version screen s' := by
  unfold Greeting.step at hl
  dsimp only at hl
  split at hl
  · cases hl
  · cases hl
    obtain ⟨read, said, hspoken, hheard, hpre, -⟩ := h.stream
    refine ⟨⟨read, said, hspoken, hheard, ?_, fun hb => by cases hb⟩, ?_, fun _ hb => by cases hb⟩
    · exact ((List.prefix_append_right_inj read).mpr (List.take_prefix ..)).trans hpre
    · intro hs
      rcases h.first hs with hnil | ⟨hone, hclient⟩
      · exact .inl (by simp [hnil])
      · cases departing with
        | zero => exact .inl rfl
        | succ n => exact .inr ⟨by simp [hone], hclient⟩

end

/-- **No step breaks the invariant**, in whatever order both sides and the two directions move. -/
theorem greetInv_step {s s' : Greeting} {l : GreetLabel} (h : GreetInv g version screen s)
    (hl : s.step g version screen l = some s') : GreetInv g version screen s' := by
  cases l with
  | greet =>
    unfold Greeting.step at hl
    dsimp only at hl
    split at hl
    · next hclient =>
      cases hl
      exact h.greets hclient
    · cases hl
  | answer trust nameTaken sent => exact GreetInv.answer_step h hl
  | welcome => exact GreetInv.welcome_step h hl
  | claim free => exact GreetInv.claim_step h hl
  | talk msg => exact GreetInv.talk_step h hl
  | leave => exact GreetInv.leave_step h hl
  | unregister => exact GreetInv.unregister_step h hl
  | abort => exact GreetInv.abort_step h hl
  | read =>
    unfold Greeting.step at hl
    dsimp only at hl
    split at hl
    · next msg rest hreads hto =>
      cases hl
      exact h.hears hreads hto
    · cases hl
  | say msg =>
    unfold Greeting.step at hl
    dsimp only at hl
    split at hl
    · next c hclient =>
      cases hl
      exact h.says hclient msg
    · cases hl
  | giveUp e => exact GreetInv.giveUp_step h hl
  | cut arriving departing => exact GreetInv.cut_step h hl

/-- The invariant holds in every state reached. -/
theorem greetInv_reach {s : Greeting} (hs : (greetings g version screen).Reachable s) :
    GreetInv g version screen s := by
  refine hs.invariant (P := GreetInv g version screen) ?_ fun _ _ _ _ h _ hl => ?_
  swap
  · exact greetInv_step h hl
  intro s hinit
  obtain rfl : s = {} := hinit
  exact ⟨⟨[], [], .hello, .hello, List.prefix_rfl, fun _ => rfl⟩, fun _ => .inl rfl,
    fun _ _ h => by cases h⟩

/-! ## What the client makes of it

The two ends agree on how it went, as far as the line lasted. -/

/-- The server has let the client in: it is about to claim the name, holds it, or has finished. -/
def HandshakeStage.LetIn (screen : ScreenInfo) (stage : HandshakeStage) : Prop :=
  (∃ v, stage = .accepted screen v) ∨ stage = .session screen.name ∨ stage = .closing screen.name
    ∨ stage = .done

/-- Of one message a client has heard nothing, or all. -/
theorem heard_one {msg : ServerMsg} {read : List ServerMsg} (h : read <+: [msg]) :
    read = [] ∨ read = [msg] := by
  cases read with
  | nil => exact .inl rfl
  | cons first later =>
    obtain ⟨hfirst, hlater⟩ := List.cons_prefix_cons.mp h
    rw [hfirst, List.prefix_nil.mp hlater]
    exact .inr rfl

/-- After the two messages the client is connected, and stays so whatever comes next. -/
theorem heard_through {v : Version} {more read : List ServerMsg}
    (h : read <+: .welcome v KEEPALIVE_INTERVAL :: .setOptions g.options :: more) :
    read = [] ∨ read = [.welcome v KEEPALIVE_INTERVAL]
      ∨ read.foldl ClientGreeting.hear .reply
        = .connected ⟨v, KEEPALIVE_INTERVAL, g.options⟩ := by
  match read with
  | [] => exact .inl rfl
  | [first] =>
    obtain ⟨hfirst, -⟩ := List.cons_prefix_cons.mp h
    exact .inr (.inl (by rw [hfirst]))
  | first :: second :: later =>
    obtain ⟨hfirst, htail⟩ := List.cons_prefix_cons.mp h
    obtain ⟨hsecond, -⟩ := List.cons_prefix_cons.mp htail
    rw [hfirst, hsecond]
    exact .inr (.inr (foldl_hear_connected _ later))

/-- What a client can have made of the messages it has read. -/
inductive MadeOf (g : Greeter) (version : Version) (screen : ScreenInfo) (stage : HandshakeStage) :
    List ServerMsg → ClientGreeting → Prop where
  | nothing : MadeOf g version screen stage [] .reply
  | welcome {v : Version} (h : g.version.negotiate version = some v) :
      MadeOf g version screen stage [.welcome v KEEPALIVE_INTERVAL]
        (.options v KEEPALIVE_INTERVAL)
  | both {v : Version} (h : g.version.negotiate version = some v) (hin : stage.LetIn screen)
      (read : List ServerMsg) : MadeOf g version screen stage read
        (.connected ⟨v, KEEPALIVE_INTERVAL, g.options⟩)
  | refusal {why : Refusal} {reply : ServerMsg} (h : stage = .refused why)
      (hno : g.Refuses version screen why reply) :
      MadeOf g version screen stage [reply] (ClientGreeting.reply.hear reply)

/-- What the client has made of what it has read is what the server's stage says, however little of
it has come. -/
theorem madeOf_spoken {stage : HandshakeStage} {said read : List ServerMsg}
    (hspoken : Spoken g version screen stage said) (hpre : read <+: said) :
    MadeOf g version screen stage read (read.foldl ClientGreeting.hear .reply) := by
  have hthrough : ∀ {v : Version} {more : List ServerMsg},
      g.version.negotiate version = some v → stage.LetIn screen →
      read <+: .welcome v KEEPALIVE_INTERVAL :: .setOptions g.options :: more →
      MadeOf g version screen stage read (read.foldl ClientGreeting.hear .reply) := by
    intro v more hv hin h
    rcases heard_through h with rfl | rfl | hconnected
    · exact .nothing
    · exact .welcome hv
    · rw [hconnected]
      exact .both hv hin read
  cases hspoken with
  | hello | mute | welcome =>
    rw [List.prefix_nil.mp hpre]
    exact .nothing
  | options hv | halfway hv =>
    rcases heard_one hpre with rfl | rfl
    · exact .nothing
    · exact .welcome hv
  | refused hno =>
    rcases heard_one hpre with rfl | rfl
    · exact .nothing
    · exact .refusal rfl hno
  | accepted hv => exact hthrough hv (.inl ⟨_, rfl⟩) hpre
  | session hv more => exact hthrough hv (.inr (.inl rfl)) hpre
  | closing hv more => exact hthrough hv (.inr (.inr (.inl rfl))) hpre
  | finished hv more => exact hthrough hv (.inr (.inr (.inr rfl))) hpre

/-- What the two ends may rely on. -/
structure Greeting.Agreed (g : Greeter) (version : Version) (screen : ScreenInfo) (s : Greeting) :
    Prop where
  /-- A connected client was let in, with what the server meant. -/
  connected : ∀ c, s.client = .connected c → s.server.LetIn screen
    ∧ ∃ v, g.version.negotiate version = some v ∧ c = ⟨v, KEEPALIVE_INTERVAL, g.options⟩
  /-- The server holds a name only for a client that gave it, and told that client no no. -/
  session : ∀ name, s.server.holds? = some name → name = screen.name
    ∧ ∀ e, s.client = .failed e → e.lostTouch = true
  /-- A client that was turned away for its version or in words was turned away for that. -/
  incompatible : ∀ v, s.client = .failed (.incompatible v) → v = g.version
    ∧ g.version.negotiate version = none ∧ s.server = .refused (.incompatible version)
  rejected : ∀ reason, s.client = .failed (.rejected reason) → ∃ why, s.server = .refused why
    ∧ g.Refuses version screen why (.rejected reason)
  /-- Nothing comes out of turn. -/
  expected : ∀ what, s.client ≠ .failed (.unexpected what)
  /-- As long as the stream holds nobody waits for nothing: with nothing on its way to a client
  that waits, it is the server that has to act, or it has given up. -/
  owed : s.broken = false → s.client.waits = true → s.toClient = [] →
    s.client = .hello ∨ s.server = .hello ∧ s.toServer = [.hello version screen]
      ∨ (∃ v, s.server = .welcome screen v ∨ s.server = .options screen v) ∨ s.server = .done

/-- What a client is that has not lost touch. -/
theorem madeOf_heard {s : Greeting} (hs : (greetings g version screen).Reachable s)
    (hclient : s.client ≠ .hello) (htouch : ∀ e, s.client = .failed e → e.lostTouch = false) :
    ∃ read, MadeOf g version screen s.server read s.client := by
  obtain ⟨read, said, hspoken, hheard, hpre, -⟩ := (greetInv_reach hs).stream
  refine ⟨read, ?_⟩
  generalize s.client = client at hheard hclient htouch ⊢
  cases hheard with
  | hello => exact absurd rfl hclient
  | reading => exact madeOf_spoken hspoken ((List.prefix_append ..).trans hpre)
  | lost h => exact absurd h (by rw [htouch _ rfl]; decide)

/-- Of what a refused client reads it makes the version's refusal or the words of it. -/
theorem hear_refusal {why : Refusal} {reply : ServerMsg} (h : g.Refuses version screen why reply) :
    (why = .incompatible version ∧ g.version.negotiate version = none
        ∧ ClientGreeting.reply.hear reply = .failed (.incompatible g.version))
      ∨ ∃ reason, reply = .rejected reason
        ∧ ClientGreeting.reply.hear reply = .failed (.rejected reason) := by
  rcases refuses_cases h with ⟨hwhy, hv, rfl⟩ | ⟨reason, rfl⟩
  · exact .inl ⟨hwhy, hv, rfl⟩
  · exact .inr ⟨reason, rfl, rfl⟩

/-- A client that is connected was let in, with the version negotiated and the server's options. -/
theorem MadeOf.of_connected {stage : HandshakeStage} {read : List ServerMsg} {c : Connected}
    (h : MadeOf g version screen stage read (.connected c)) : stage.LetIn screen
      ∧ ∃ v, g.version.negotiate version = some v ∧ c = ⟨v, KEEPALIVE_INTERVAL, g.options⟩ := by
  generalize hclient : ClientGreeting.connected c = client at h
  cases h with
  | nothing => cases hclient
  | welcome => cases hclient
  | both hv hin =>
    cases hclient
    exact ⟨hin, _, hv, rfl⟩
  | refusal _ hno =>
    rcases hear_refusal hno with ⟨-, -, hf⟩ | ⟨reason, -, hf⟩ <;> rw [hf] at hclient <;>
      cases hclient

/-- A client that failed in words was refused in these words, for the reason on record. -/
theorem MadeOf.of_failed {stage : HandshakeStage} {read : List ServerMsg} {e : ConnectFailure}
    (h : MadeOf g version screen stage read (.failed e)) :
    (e = .incompatible g.version ∧ g.version.negotiate version = none
        ∧ stage = .refused (.incompatible version))
      ∨ ∃ why reason, e = .rejected reason ∧ stage = .refused why
        ∧ g.Refuses version screen why (.rejected reason) := by
  generalize hclient : ClientGreeting.failed e = client at h
  cases h with
  | nothing => cases hclient
  | welcome => cases hclient
  | both => cases hclient
  | @refusal why reply hrefused hno =>
    rcases hear_refusal hno with ⟨hwhy, hnone, hf⟩ | ⟨reason, hreply, hf⟩
    · rw [hf] at hclient
      exact .inl ⟨ClientGreeting.failed.inj hclient, hnone, hwhy ▸ hrefused⟩
    · rw [hf] at hclient
      exact .inr ⟨why, reason, ClientGreeting.failed.inj hclient, hrefused, hreply ▸ hno⟩

/-- A client that failed and has not lost touch was turned away. -/
theorem failed_cases {s : Greeting} (hs : (greetings g version screen).Reachable s)
    {e : ConnectFailure} (he : s.client = .failed e) (htouch : e.lostTouch = false) :
    (e = .incompatible g.version ∧ g.version.negotiate version = none
        ∧ s.server = .refused (.incompatible version))
      ∨ ∃ why reason, e = .rejected reason ∧ s.server = .refused why
        ∧ g.Refuses version screen why (.rejected reason) := by
  obtain ⟨read, hmade⟩ := madeOf_heard hs (by simp [he]) (by simpa [he] using htouch)
  rw [he] at hmade
  exact hmade.of_failed

/-- A client that waits, with nothing on its way to it over a whole stream, is waited for. -/
theorem owed_of_inv {s : Greeting} (h : GreetInv g version screen s) (hwhole : s.broken = false)
    (hwaits : s.client.waits = true) (hempty : s.toClient = []) (hclient : s.client ≠ .hello) :
    s.server = .hello ∧ s.toServer = [.hello version screen]
      ∨ (∃ v, s.server = .welcome screen v ∨ s.server = .options screen v) ∨ s.server = .done := by
  obtain ⟨read, said, hspoken, hheard, -, hall⟩ := h.stream
  have hsaid : read = said := by simpa [hempty] using hall hwhole
  have hfold : s.client = read.foldl ClientGreeting.hear .reply := by
    refine heard_reads ?_ hheard
    cases hstage : s.client with
    | hello => exact absurd hstage hclient
    | reply | options | connected => rfl
    | failed => rw [hstage] at hwaits; cases hwaits
  rw [hsaid] at hfold
  have hsent := h.sent
  rw [hfold] at hwaits hsent
  generalize s.server = stage at hspoken hsent
  cases hspoken with
  | hello => exact .inl ⟨rfl, hsent rfl hwhole rfl⟩
  | refused hno =>
    rcases hear_refusal hno with ⟨-, -, hf⟩ | ⟨reason, -, hf⟩ <;>
      simp [hf, ClientGreeting.waits] at hwaits
  | welcome => exact .inr (.inl ⟨_, .inl rfl⟩)
  | options => exact .inr (.inl ⟨_, .inr rfl⟩)
  | accepted => cases hwaits
  | @session v _ more | @closing v _ more | @finished v _ more =>
    have hc := foldl_hear_connected ⟨v, KEEPALIVE_INTERVAL, g.options⟩ more
    simp [ClientGreeting.hear, hc, ClientGreeting.waits] at hwaits
  | mute => exact .inr (.inr rfl)
  | halfway => exact .inr (.inr rfl)

/-- **The two ends agree.** However the client, the server and the stream take their turns. -/
theorem greeting_agrees {s : Greeting} (hs : (greetings g version screen).Reachable s) :
    s.Agreed g version screen := by
  have h := greetInv_reach hs
  refine ⟨?_, ?_, ?_, ?_, ?_, ?_⟩
  -- a client that is connected has read a welcome
  · intro c hc
    obtain ⟨read, hmade⟩ := madeOf_heard hs (by simp [hc]) (by simp [hc])
    rw [hc] at hmade
    exact hmade.of_connected
  -- a registered name: the server has said all of it, and the client can only have been lost
  · intro name hname
    refine ⟨?_, ?_⟩
    · obtain ⟨read, said, hspoken, -⟩ := h.stream
      generalize s.server = stage at hspoken hname
      cases hspoken <;> cases hname <;> rfl
    · intro e he
      by_contra hlost
      rcases failed_cases hs he (by simpa using hlost) with ⟨-, -, hserver⟩ | ⟨_, _, -, hserver, -⟩
      · rw [hserver] at hname
        cases hname
      · rw [hserver] at hname
        cases hname
  -- another version: neither end goes on
  · intro v hv
    rcases failed_cases hs hv rfl with ⟨he, hnone, hserver⟩ | ⟨_, _, he, -⟩
    · exact ⟨ConnectFailure.incompatible.inj he, hnone, hserver⟩
    · cases he
  -- a refusal in words: it is the one the server gave
  · intro reason hreason
    rcases failed_cases hs hreason rfl with ⟨he, -⟩ | ⟨why, told, he, hserver, hno⟩
    · cases he
    · cases he
      exact ⟨why, hserver, hno⟩
  -- no other answer is ever sent
  · intro what hwhat
    rcases failed_cases hs hwhat rfl with ⟨he, -⟩ | ⟨_, _, he, -⟩
    · cases he
    · cases he
  -- with nothing on the way the client is where the server put it
  · intro hwhole hwaits hempty
    by_cases hclient : s.client = .hello
    · exact .inl hclient
    · exact .inr (owed_of_inv h hwhole hwaits hempty hclient)

end Runs

/-- A server without TLS that lists one machine. -/
def openDesk : Greeter :=
  { layout := { screens := ["laptop"] }, options := {}, tls := none, escaped := id }

def laptop : ScreenInfo := ⟨"laptop", ⟨0, 0, 1920, 1080⟩, [], ⟨0, 0⟩⟩

/-- The run in which it comes on. -/
def comingOn : List GreetLabel :=
  [.greet, .answer {} false true, .welcome, .read, .welcome, .claim true, .read]

def cameOn : Greeting :=
  { server := .session "laptop", client := .connected ⟨protocolVersion, KEEPALIVE_INTERVAL, {}⟩ }

/-- A greeting that goes through, to the end. -/
theorem cameOn_reachable : (greetings openDesk protocolVersion laptop).Reachable cameOn := by
  have hinit : (greetings openDesk protocolVersion laptop).init {} := rfl
  have hrun : (greetings openDesk protocolVersion laptop).run {} comingOn = some cameOn := by rfl
  exact Lts.reachable_of_run hinit hrun

/-- The two sides agree there. -/
theorem greeting_agrees_cameOn : cameOn.Agreed openDesk protocolVersion laptop :=
  greeting_agrees cameOn_reachable

/-! ## What the client shows of it

The client shows that it awaits approval where the refusal reads so. -/

/-- A separator that is not in the part looked for leaves it on one side. -/
theorem infix_around {part left right : List Char} {c : Char} (hc : c ∉ part) :
    part <:+: left ++ c :: right ↔ part <:+: left ∨ part <:+: right := by
  constructor
  · rintro ⟨before, after, h⟩
    rw [List.append_assoc, List.append_eq_append_iff] at h
    rcases h with ⟨between, hleft, hright⟩ | ⟨between, hbefore, hrest⟩
    · -- It begins in `left`, and cannot reach over `c`.
      rw [List.append_eq_append_iff] at hright
      rcases hright with ⟨mid, hmid, -⟩ | ⟨mid, hpart, hmid⟩
      · exact .inl ⟨before, mid, by rw [hleft, hmid, List.append_assoc]⟩
      · cases mid with
        | nil =>
          exact .inl ⟨before, [], by rw [hleft, hpart]; simp⟩
        | cons d rest =>
          obtain ⟨rfl, -⟩ := List.cons.inj hmid
          exact absurd (by rw [hpart]; simp) hc
    · cases between with
      | nil =>
        cases part with
        | nil => exact .inl List.nil_infix
        | cons d rest =>
          rw [List.nil_append, List.cons_append] at hrest
          obtain ⟨rfl, -⟩ := List.cons.inj hrest
          exact absurd List.mem_cons_self hc
      | cons d rest =>
        have hcons : c :: right = d :: (rest ++ (part ++ after)) := hrest
        exact .inr ⟨rest, after, by rw [List.append_assoc, ← (List.cons.inj hcons).2]⟩
  · rintro (h | h)
    · exact h.trans List.infix_append_left
    · exact h.trans ((List.suffix_cons c right).isInfix.trans List.infix_append_right)

/-- What is quoted in a text that does not hold the part itself. -/
theorem strContains_quoted (g : Greeter) {before name after part : String}
    (hquote : '"' ∉ part.toList) (hbefore : strContains before part = false)
    (hafter : strContains after part = false) :
    strContains (before ++ g.quoted name ++ after) part = strContains (g.escaped name) part := by
  unfold strContains at *
  have htext : (before ++ g.quoted name ++ after).toList
      = before.toList ++ '"' :: ((g.escaped name).toList ++ '"' :: after.toList) := by
    simp [Greeter.quoted, String.toList_append]
  rw [htext, decide_eq_decide, infix_around hquote, infix_around hquote]
  rw [decide_eq_false_iff_not] at hbefore hafter
  tauto

/-- The words the client looks for. -/
def readsAsApproval (text : String) : Bool :=
  strContains text "approval" || strContains text "different certificate"

/-- A rejection is shown as waiting for approval if and only if its words read as one. -/
theorem ofFailure_rejected (reason : String) :
    ClientStatus.ofFailure (.rejected reason) = .awaitingApproval reason
      ↔ readsAsApproval reason = true := by
  unfold ClientStatus.ofFailure readsAsApproval
  dsimp only
  split <;> simp_all

/-- The certificate is refused in the words the client looks for, unless there is none. -/
theorem authorize_reads {g : Greeter} {trust : Trust} {name reason : String}
    (h : g.authorize trust name = .error reason) :
    readsAsApproval reason = true ↔ ∃ fp, g.tls = some (some fp) := by
  unfold Greeter.authorize at h
  split at h
  · cases h
  · next htls =>
    cases h
    rw [htls]
    simp [show readsAsApproval "no client certificate" = false by decide]
  · next fp htls =>
    have hread : readsAsApproval reason = true := by
      split at h
      · cases h
      · cases h
        unfold readsAsApproval strContains
        rw [Bool.or_eq_true, decide_eq_true_eq, decide_eq_true_eq]
        right
        exact ⟨"this screen is registered with a ".toList,
          "; approve the new one on the server".toList, rfl⟩
      · cases h
        unfold readsAsApproval strContains
        rw [Bool.or_eq_true, decide_eq_true_eq, decide_eq_true_eq]
        left
        refine ⟨"waiting for ".toList,
          " on the server (this client's fingerprint is ".toList ++ fp.toText.toList ++ ")".toList, ?_⟩
        simp [String.toList_append]
    exact ⟨fun _ => ⟨fp, htls⟩, fun _ => hread⟩

/-- **What the client shows of a refusal.** Of the answers a server gives a `Hello`, the client
takes those for a request that is to be approved there that refuse a certificate it showed, and,
by mistake, those in which its own name, as it is printed, reads that way. -/
theorem awaiting_approval_iff {g : Greeter} {trust : Trust} {nameTaken : Bool} {version : Version}
    {screen : ScreenInfo} {why : Refusal} {reason : String}
    (h : g.handshake trust nameTaken (.hello version screen) = .error (why, .rejected reason)) :
    ClientStatus.ofFailure (.rejected reason) = .awaitingApproval reason
      ↔ (why = .untrusted screen.name ∧ ∃ fp, g.tls = some (some fp))
        ∨ (why ≠ .untrusted screen.name ∧ readsAsApproval (g.escaped screen.name) = true) := by
  have hnot : readsAsApproval (g.notListed screen.name)
      = readsAsApproval (g.escaped screen.name) := by
    unfold readsAsApproval Greeter.notListed
    rw [strContains_quoted g (by decide) (by decide) (by decide),
      strContains_quoted g (by decide) (by decide) (by decide)]
  have hheld : readsAsApproval (g.alreadyConnected screen.name)
      = readsAsApproval (g.escaped screen.name) := by
    unfold readsAsApproval Greeter.alreadyConnected
    rw [strContains_quoted g (by decide) (by decide) (by decide),
      strContains_quoted g (by decide) (by decide) (by decide)]
  rw [ofFailure_rejected]
  unfold Greeter.handshake at h
  dsimp only at h
  split at h
  · cases h
  · split at h
    · cases h
      simp [hnot]
    · split at h
      · next hno =>
        cases h
        simp [authorize_reads hno]
      · split at h
        · cases h
          simp [hnot]
        · split at h
          · cases h
            simp [hheld]
          · cases h

/-- A machine with the word in its name is told to wait for approval when its name is taken. -/
theorem awaiting_approval_iff_named :
    ClientStatus.ofFailure (.rejected "screen \"approval-desk\" is already connected")
      = .awaitingApproval "screen \"approval-desk\" is already connected" := by
  have h : Greeter.handshake { openDesk with layout := { screens := ["approval-desk"] } } {} true
      (.hello protocolVersion { laptop with name := "approval-desk" })
      = .error (.nameTaken "approval-desk",
        .rejected "screen \"approval-desk\" is already connected") := by rfl
  exact (awaiting_approval_iff h).mpr (.inr ⟨by decide, by decide⟩)

end GeserDesk
