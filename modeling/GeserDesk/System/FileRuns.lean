import GeserDesk.Lib.Transition
import GeserDesk.Server.Files

/-!
# Runs of the file router

Any number of requests, announcements, replies and disconnects, each cut into its lock sections
and interleaved in any order. Replies come from anyone, under any number, as often as they like.

A request is identified by the order in which it was made (`rid`); the identity rides along with
what waits for the answer and with the answer's message, and no step decides anything by it.
`FileReq.pc` says where the request stands: inside `route`, in the table, with its answer in
hand, or answered.

* **`FileStep`**: everything a step can do, from which the invariants are derived.
* **`resolve_frame`**, **`deliver_frame`**, **`refuse_frame`**: what answering leaves alone.

What holds of every run is stated and proved in `FileConservation`.
-/

namespace GeserDesk

/-- A queued message, with the request it answers (bookkeeping only). -/
structure Tagged where
  msg : ServerMsg
  answers : Option Nat := none
deriving DecidableEq, Repr

/-- Where a request stands. -/
inductive ReqPc where
  /-- `route` has not read the owner. -/
  | start
  /-- `route` found a client the owner, and has not entered the request. -/
  | toInsert (owner : String)
  /-- The server's own files are to be read. -/
  | reading
  /-- In the table, under the router's number `req`. -/
  | waits (owner : String) (req : Nat)
  /-- The answer is known and not delivered. -/
  | inHand (result : FileReadResult)
  | answered (result : FileReadResult)
deriving DecidableEq

structure FileReq where
  waiting : Waiting
  args : ReadArgs
  pc : ReqPc
deriving DecidableEq

/-- What is left of `route` once the request is in the table. -/
inductive SendPc where
  | toSend (owner : String) (req : Nat) (args : ReadArgs)
  /-- The owner was not there; the request is to be taken back. -/
  | unsent (req : Nat)
deriving DecidableEq

/-- What is left of `on_disconnected` once the owner is dropped. -/
inductive Cleanup where
  | toCollect (name : String)
  | toAnswer (reqs : List Nat)
deriving DecidableEq

/-- A request entered in the table. -/
structure Routed where
  rid : Nat
  owner : String
  req : Nat
deriving DecidableEq

/-- A delivery. -/
structure Answer where
  rid : Nat
  waiting : Waiting
  result : FileReadResult
deriving DecidableEq

structure FileRun where
  hub : Hub Tagged := {}
  router : FileRouter (Waiting × Nat) := {}
  requests : Dict Nat FileReq := ∅
  nextRid : Nat := 0
  sends : Dict Nat SendPc := ∅
  cleanups : Dict Nat Cleanup := ∅
  nextCleanup : Nat := 0
  /-- Everything entered in the table (bookkeeping, as are the next three). -/
  routed : List Routed := []
  /-- Every reply to a number in the table: from whom, to which number, saying what. -/
  replied : List (String × Nat × FileReadResult) := []
  /-- Every read of the server's own files: the request, what was served, and the disk. -/
  served : List (Nat × FileOwner × Disk) := []
  answers : List Answer := []

inductive FileLabel where
  /-- `request_for_client` or `request_local` is called. -/
  | ask (waiting : Waiting) (args : ReadArgs)
  | readOwner (rid : Nat)
  | insert (rid : Nat)
  | send (rid : Nat)
  | retract (rid : Nat)
  | serve (rid : Nat) (disk : Disk)
  | deliver (rid : Nat)
  | announce (owner : Owner) (seq : Nat) (manifest : FileManifest)
  /-- The server's own desktop copies files, or stops serving them. -/
  | setLocal (owner : FileOwner)
  | reply (from_ : String) (req : Nat) (result : FileReadResult)
  | dropOwner (name : String)
  | collect (cid : Nat)
  | answerStale (cid : Nat)
  | register (name : String) (monitors : List Rect)
  | unregister (name : String)
  /-- A session takes the next message for its client. -/
  | consume (name : String)
  /-- Anything that is not about files is queued. -/
  | traffic (name : String) (msg : ServerMsg)

/-- The answer a message carries. -/
def ServerMsg.fileReply? : ServerMsg → Option (Nat × FileReadResult)
  | .fileReply req result => some (req, result)
  | _ => none

/-- The read a message asks for, with its number. -/
def ServerMsg.fileRead? : ServerMsg → Option (Nat × ReadArgs)
  | .fileRead seq req index offset len => some (req, ⟨seq, index, offset, len⟩)
  | _ => none

namespace FileRun

/-- What a request asks, and for whom. -/
def origin (s : FileRun) (rid : Nat) : Option (Waiting × ReadArgs) :=
  (s.requests.get? rid).map fun r => (r.waiting, r.args)

def setPc (s : FileRun) (rid : Nat) (pc : ReqPc) : FileRun :=
  { s with requests := s.requests.modify rid fun r => { r with pc := pc } }

/-- Take number `req` out of the table, if it is there; its answer is then in hand. -/
def resolve (s : FileRun) (req : Nat) (verdict : String → FileReadResult) : FileRun × Option Nat :=
  let (router, entry) := s.router.take req
  match entry with
  | none => ({ s with router := router }, none)
  | some p =>
    (setPc { s with router := router } p.waiting.2 (.inHand (verdict p.sentTo)), some p.waiting.2)

/-- Deliver the answer in hand for `rid`. -/
def deliver (s : FileRun) (rid : Nat) : Option FileRun :=
  match s.requests.get? rid with
  | some ⟨waiting, _, .inHand result⟩ => some { s.setPc rid (.answered result) with
      hub := FileRouter.deliver (fun req result => ⟨.fileReply req result, some rid⟩) s.hub waiting
        result
      answers := s.answers ++ [⟨rid, waiting, result⟩] }
  | _ => none

/-- Answer number `req` with `NotFound`, if it is in the table. -/
def refuse (s : FileRun) (req : Nat) : FileRun :=
  match s.resolve req fun _ => .err .notFound with
  | (s, none) => s
  | (s, some rid) => (s.deliver rid).getD s

/-- The session of `name` takes the next message for its client. -/
def consume (s : FileRun) (name : String) : Option (FileRun × Tagged) :=
  match s.hub.clients.get? name with
  | some ⟨msg :: rest, monitors⟩ =>
    some ({ s with hub := { s.hub with clients := s.hub.clients.put name ⟨rest, monitors⟩ } }, msg)
  | _ => none

def step (s : FileRun) : FileLabel → Option FileRun
  | .ask waiting args => some { s with
      requests := s.requests.put s.nextRid ⟨waiting, args, .start⟩
      nextRid := s.nextRid + 1 }
  | .readOwner rid =>
    match s.requests.get? rid with
    | some ⟨_, _, .start⟩ =>
      match s.router.currentOwner with
      | none => some (s.setPc rid (.inHand (.err .notFound)))
      | some .server => some (s.setPc rid .reading)
      | some (.client name) => some (s.setPc rid (.toInsert name))
    | _ => none
  | .insert rid =>
    match s.requests.get? rid with
    | some ⟨waiting, args, .toInsert name⟩ =>
      let (router, req) := s.router.insert name (waiting, rid)
      some { s.setPc rid (.waits name req) with
        router := router
        sends := s.sends.put rid (.toSend name req args)
        routed := s.routed ++ [⟨rid, name, req⟩] }
    | _ => none
  | .send rid =>
    match s.sends.get? rid with
    | some (.toSend name req a) =>
      let (hub, sent) := s.hub.send name ⟨.fileRead a.seq req a.index a.offset a.len, none⟩
      if sent then some { s with hub := hub, sends := s.sends.drop rid }
      else some { s with sends := s.sends.put rid (.unsent req) }
    | _ => none
  | .retract rid =>
    match s.sends.get? rid with
    | some (.unsent req) => some { s.refuse req with sends := s.sends.drop rid }
    | _ => none
  | .serve rid disk =>
    match s.requests.get? rid with
    | some ⟨_, args, .reading⟩ =>
      some { s.setPc rid (.inHand (s.router.localOwner.read disk args)) with
        served := s.served ++ [(rid, s.router.localOwner, disk)] }
    | _ => none
  | .deliver rid => s.deliver rid
  | .announce owner seq manifest => some { s with router := s.router.announce owner seq manifest }
  | .setLocal owner => some { s with router := { s.router with localOwner := owner } }
  | .reply from_ req result =>
    match s.resolve req fun sentTo => FileRouter.reply sentTo from_ result with
    | (s', none) => some s'
    | (s', some _) => some { s' with replied := s.replied ++ [(from_, req, result)] }
  | .dropOwner name => some { s with
      router := s.router.dropOwner name
      cleanups := s.cleanups.put s.nextCleanup (.toCollect name)
      nextCleanup := s.nextCleanup + 1 }
  | .collect cid =>
    match s.cleanups.get? cid with
    | some (.toCollect name) =>
      some { s with cleanups := s.cleanups.put cid (.toAnswer (s.router.stale name)) }
    | _ => none
  | .answerStale cid =>
    match s.cleanups.get? cid with
    | some (.toAnswer (req :: reqs)) =>
      some { s.refuse req with cleanups := s.cleanups.put cid (.toAnswer reqs) }
    | _ => none
  | .register name monitors =>
    match s.hub.insertClient name monitors with
    | some hub => some { s with hub := hub }
    | none => none
  | .unregister name => some { s with hub := s.hub.removeClient name }
  | .consume name => (s.consume name).map (·.1)
  | .traffic name msg =>
    match msg.fileReply?, msg.fileRead? with
    | none, none => some { s with hub := (s.hub.send name ⟨msg, none⟩).1 }
    | _, _ => none

end FileRun

/-- The file router with everything that uses it, as a transition system. -/
def fileRuns : Lts FileRun FileLabel where
  init s := s = {}
  step := FileRun.step

/-! ## What one step can do

A rule for each thing a step can do. -/

/-- Every outcome of a step of the file router. -/
inductive FileStep (s : FileRun) : FileLabel → FileRun → Prop where
  | ask {waiting : Waiting} {args : ReadArgs} :
      FileStep s (.ask waiting args) { s with
        requests := s.requests.put s.nextRid ⟨waiting, args, .start⟩
        nextRid := s.nextRid + 1 }
  | ownerNone {rid : Nat} {waiting : Waiting} {args : ReadArgs}
      (hr : s.requests.get? rid = some ⟨waiting, args, .start⟩) :
      FileStep s (.readOwner rid) (s.setPc rid (.inHand (.err .notFound)))
  | ownerServer {rid : Nat} {waiting : Waiting} {args : ReadArgs}
      (hr : s.requests.get? rid = some ⟨waiting, args, .start⟩) :
      FileStep s (.readOwner rid) (s.setPc rid .reading)
  | ownerClient {rid : Nat} {waiting : Waiting} {args : ReadArgs} {name : String}
      (hr : s.requests.get? rid = some ⟨waiting, args, .start⟩)
      (howner : s.router.currentOwner = some (.client name)) :
      FileStep s (.readOwner rid) (s.setPc rid (.toInsert name))
  | insert {rid : Nat} {waiting : Waiting} {args : ReadArgs} {name : String}
      (hr : s.requests.get? rid = some ⟨waiting, args, .toInsert name⟩) :
      FileStep s (.insert rid) { s.setPc rid (.waits name s.router.nextReq) with
        router := (s.router.insert name (waiting, rid)).1
        sends := s.sends.put rid (.toSend name s.router.nextReq args)
        routed := s.routed ++ [⟨rid, name, s.router.nextReq⟩] }
  | sent {rid req : Nat} {name : String} {a : ReadArgs}
      (hsend : s.sends.get? rid = some (.toSend name req a)) :
      FileStep s (.send rid) { s with
        hub := (s.hub.send name ⟨.fileRead a.seq req a.index a.offset a.len, none⟩).1
        sends := s.sends.drop rid }
  | unsent {rid req : Nat} {name : String} {a : ReadArgs}
      (hsend : s.sends.get? rid = some (.toSend name req a)) :
      FileStep s (.send rid) { s with sends := s.sends.put rid (.unsent req) }
  | retract {rid req : Nat} (hsend : s.sends.get? rid = some (.unsent req)) :
      FileStep s (.retract rid) { s.refuse req with sends := s.sends.drop rid }
  | serve {rid : Nat} {disk : Disk} {waiting : Waiting} {args : ReadArgs}
      (hr : s.requests.get? rid = some ⟨waiting, args, .reading⟩) :
      FileStep s (.serve rid disk) { s.setPc rid (.inHand (s.router.localOwner.read disk args)) with
        served := s.served ++ [(rid, s.router.localOwner, disk)] }
  | deliver {rid : Nat} {s' : FileRun} (hd : s.deliver rid = some s') :
      FileStep s (.deliver rid) s'
  | announce {owner : Owner} {seq : Nat} {manifest : FileManifest} :
      FileStep s (.announce owner seq manifest)
        { s with router := s.router.announce owner seq manifest }
  | setLocal {owner : FileOwner} :
      FileStep s (.setLocal owner) { s with router := { s.router with localOwner := owner } }
  | replyNone {from_ : String} {req : Nat} {result : FileReadResult}
      (hp : s.router.pending.get? req = none) :
      FileStep s (.reply from_ req result)
        (s.resolve req fun sentTo => FileRouter.reply sentTo from_ result).1
  | replySome {from_ : String} {req : Nat} {result : FileReadResult}
      {p : Pending (Waiting × Nat)} (hp : s.router.pending.get? req = some p) :
      FileStep s (.reply from_ req result)
        { (s.resolve req fun sentTo => FileRouter.reply sentTo from_ result).1 with
          replied := s.replied ++ [(from_, req, result)] }
  | dropOwner {name : String} :
      FileStep s (.dropOwner name) { s with
        router := s.router.dropOwner name
        cleanups := s.cleanups.put s.nextCleanup (.toCollect name)
        nextCleanup := s.nextCleanup + 1 }
  | collect {cid : Nat} {name : String} (hc : s.cleanups.get? cid = some (.toCollect name)) :
      FileStep s (.collect cid)
        { s with cleanups := s.cleanups.put cid (.toAnswer (s.router.stale name)) }
  | answerStale {cid req : Nat} {reqs : List Nat}
      (hc : s.cleanups.get? cid = some (.toAnswer (req :: reqs))) :
      FileStep s (.answerStale cid)
        { s.refuse req with cleanups := s.cleanups.put cid (.toAnswer reqs) }
  | register {name : String} {monitors : List Rect} (hfree : s.hub.clients.get? name = none) :
      FileStep s (.register name monitors)
        { s with hub := { s.hub with clients := s.hub.clients.put name ⟨[], monitors⟩ } }
  | unregister {name : String} :
      FileStep s (.unregister name) { s with hub := s.hub.removeClient name }
  | consume {name : String} {msg : Tagged} {rest : List Tagged}
      {monitors : List Rect} (he : s.hub.clients.get? name = some ⟨msg :: rest, monitors⟩) :
      FileStep s (.consume name)
        { s with hub := { s.hub with clients := s.hub.clients.put name ⟨rest, monitors⟩ } }
  | traffic {name : String} {msg : ServerMsg} (hreply : msg.fileReply? = none)
      (hread : msg.fileRead? = none) :
      FileStep s (.traffic name msg) { s with hub := (s.hub.send name ⟨msg, none⟩).1 }

/-- **Every step is one of those of `FileStep`**, taken apart once and for all. -/
theorem fileStep_of_step {s s' : FileRun} {l : FileLabel} (hs : s.step l = some s') :
    FileStep s l s' := by
  -- one rule of `FileStep` for each branch of the step
  cases l with
  | ask waiting args => exact Option.some.inj hs ▸ .ask
  | readOwner rid =>
    simp only [FileRun.step] at hs
    split at hs
    case h_2 => cases hs
    next hr =>
    split at hs
    · exact Option.some.inj hs ▸ .ownerNone hr
    · exact Option.some.inj hs ▸ .ownerServer hr
    · next howner => exact Option.some.inj hs ▸ .ownerClient hr howner
  | insert rid =>
    simp only [FileRun.step] at hs
    split at hs
    case h_2 => cases hs
    next hr => exact Option.some.inj hs ▸ .insert hr
  | send rid =>
    simp only [FileRun.step] at hs
    split at hs
    case h_2 => cases hs
    next hsend =>
    split at hs
    · exact Option.some.inj hs ▸ .sent hsend
    · exact Option.some.inj hs ▸ .unsent hsend
  | retract rid =>
    simp only [FileRun.step] at hs
    split at hs
    case h_2 => cases hs
    next hsend => exact Option.some.inj hs ▸ .retract hsend
  | serve rid disk =>
    simp only [FileRun.step] at hs
    split at hs
    case h_2 => cases hs
    next hr => exact Option.some.inj hs ▸ .serve hr
  | deliver rid => exact .deliver hs
  | announce owner seq manifest => exact Option.some.inj hs ▸ .announce
  | setLocal owner => exact Option.some.inj hs ▸ .setLocal
  | reply from_ req result =>
    simp only [FileRun.step] at hs
    -- whom a reply finds is decided by the table alone
    have hfound : (s.resolve req fun sentTo => FileRouter.reply sentTo from_ result).2
        = (s.router.pending.get? req).map fun p => p.waiting.2 := by
      unfold FileRun.resolve FileRouter.take
      cases s.router.pending.get? req <;> rfl
    cases hp : s.router.pending.get? req with
    | none =>
      have hout : FileStep s (.reply from_ req result) _ := .replyNone hp
      generalize s.resolve req (fun sentTo => FileRouter.reply sentTo from_ result) = out at *
      obtain ⟨s₁, found⟩ := out
      obtain rfl : found = none := hfound.trans (by rw [hp]; rfl)
      exact Option.some.inj hs ▸ hout
    | some p =>
      have hout : FileStep s (.reply from_ req result) _ := .replySome hp
      generalize s.resolve req (fun sentTo => FileRouter.reply sentTo from_ result) = out at *
      obtain ⟨s₁, found⟩ := out
      obtain rfl : found = some p.waiting.2 := hfound.trans (by rw [hp]; rfl)
      exact Option.some.inj hs ▸ hout
  | dropOwner name => exact Option.some.inj hs ▸ .dropOwner
  | collect cid =>
    simp only [FileRun.step] at hs
    split at hs
    case h_2 => cases hs
    next hc => exact Option.some.inj hs ▸ .collect hc
  | answerStale cid =>
    simp only [FileRun.step] at hs
    split at hs
    case h_2 => cases hs
    next hc => exact Option.some.inj hs ▸ .answerStale hc
  | register name monitors =>
    simp only [FileRun.step, Hub.insertClient, Hub.contains] at hs
    cases hfree : s.hub.clients.get? name with
    | some e => simp [hfree] at hs
    | none => simp [hfree] at hs; exact hs ▸ .register hfree
  | unregister name => exact Option.some.inj hs ▸ .unregister
  | consume name =>
    obtain ⟨⟨s₁, m⟩, hc, rfl⟩ := Option.map_eq_some_iff.mp hs
    unfold FileRun.consume at hc
    split at hc
    case h_2 => cases hc
    next he =>
    obtain ⟨rfl, -⟩ := Prod.mk.inj (Option.some.inj hc)
    exact .consume he
  | traffic name msg =>
    simp only [FileRun.step] at hs
    split at hs
    case h_2 => cases hs
    next hreply hread => exact Option.some.inj hs ▸ .traffic hreply hread

/-! ## What a step leaves alone

Frame lemmas for the three operations the steps share. -/

namespace FileRun

/-- Setting the place of one request leaves the others as they are. -/
@[simp] theorem setPc_get? (s : FileRun) (rid rid' : Nat) (pc : ReqPc) :
    (s.setPc rid pc).requests.get? rid'
      = if rid' = rid then (s.requests.get? rid').map fun r => { r with pc := pc }
        else s.requests.get? rid' := Dict.get?_modify _ _ _ _


/-- Where a request came from does not change with its place. -/
@[simp] theorem origin_setPc (s : FileRun) (rid rid' : Nat) (pc : ReqPc) :
    (s.setPc rid pc).origin rid' = s.origin rid' := by
  unfold origin
  rw [setPc_get?]
  split
  · rw [Option.map_map]; rfl
  · rfl

/-- Taking a number out of the table changes the table and where one request stands. -/
theorem resolve_frame (s : FileRun) (req : Nat) (verdict : String → FileReadResult) :
    (s.resolve req verdict).1.router = { s.router with pending := s.router.pending.drop req }
      ∧ (s.resolve req verdict).1.hub = s.hub ∧ (s.resolve req verdict).1.sends = s.sends
      ∧ (s.resolve req verdict).1.cleanups = s.cleanups
      ∧ (s.resolve req verdict).1.nextCleanup = s.nextCleanup
      ∧ (s.resolve req verdict).1.routed = s.routed
      ∧ (∀ rid, (s.resolve req verdict).1.origin rid = s.origin rid) := by
  unfold resolve FileRouter.take
  cases s.router.pending.get? req with
  | none => exact ⟨rfl, rfl, rfl, rfl, rfl, rfl, fun _ => rfl⟩
  | some p => exact ⟨rfl, rfl, rfl, rfl, rfl, rfl, fun rid => origin_setPc _ _ rid _⟩

/-- Delivering changes where the request stands, and queues at most the one reply. -/
theorem deliver_frame {s s' : FileRun} {rid : Nat} (h : s.deliver rid = some s') :
    s'.router = s.router ∧ s'.sends = s.sends ∧ s'.cleanups = s.cleanups
      ∧ s'.nextCleanup = s.nextCleanup ∧ s'.routed = s.routed
      ∧ (∀ rid', s'.origin rid' = s.origin rid')
      ∧ ∃ waiting args result, s.requests.get? rid = some ⟨waiting, args, .inHand result⟩
        ∧ s'.hub = FileRouter.deliver (fun req result => ⟨.fileReply req result, some rid⟩) s.hub
          waiting result := by
  unfold deliver at h
  split at h
  case h_2 => cases h
  next waiting args result hr =>
  rw [Option.some.injEq] at h
  subst h
  exact ⟨rfl, rfl, rfl, rfl, rfl, fun rid' => origin_setPc s rid rid' _, waiting, args, result, hr, rfl⟩

/-- A request taken back is gone from the table; owners and numbers stay. -/
theorem refuse_frame (s : FileRun) (req : Nat) :
    (s.refuse req).router = { s.router with pending := s.router.pending.drop req }
      ∧ (s.refuse req).sends = s.sends ∧ (s.refuse req).cleanups = s.cleanups
      ∧ (s.refuse req).nextCleanup = s.nextCleanup ∧ (s.refuse req).routed = s.routed
      ∧ (∀ rid, (s.refuse req).origin rid = s.origin rid) := by
  unfold refuse
  obtain ⟨hrouter, -, hsends, hcleanups, hnext, hrouted, horigin⟩ :=
    s.resolve_frame req fun _ => .err .notFound
  generalize s.resolve req (fun _ => .err .notFound) = out at *
  obtain ⟨s₁, found⟩ := out
  cases found with
  | none => exact ⟨hrouter, hsends, hcleanups, hnext, hrouted, horigin⟩
  | some rid =>
    dsimp only at *
    cases hd : s₁.deliver rid with
    | none => exact ⟨hrouter, hsends, hcleanups, hnext, hrouted, horigin⟩
    | some s₂ =>
      rw [Option.getD_some]
      obtain ⟨hrouter', hsends', hcleanups', hnext', hrouted', horigin', -⟩ := deliver_frame hd
      exact ⟨hrouter'.trans hrouter, hsends'.trans hsends, hcleanups'.trans hcleanups,
        hnext'.trans hnext, hrouted'.trans hrouted, fun rid' => (horigin' rid').trans (horigin rid')⟩

/-! ## What the steps queue

A message in an outbox after a step was there before, unless the step queued it. -/

/-- What is in a queue after a send of something else was there before. -/
theorem send_hub {hub : Hub Tagged} {to_ name : String} {msg : Tagged} {e' : Entry Tagged}
    {m : Tagged} {p : ServerMsg → Bool} (he' : (hub.send to_ msg).1.clients.get? name = some e')
    (hm : m ∈ e'.outbox) (hp : p m.msg = true) (hnot : p msg.msg = false) :
    ∃ e, hub.clients.get? name = some e ∧ m ∈ e.outbox := by
  rw [Hub.send_get?] at he'
  split at he'
  · next hname =>
    obtain ⟨e, he, rfl⟩ := Option.map_eq_some_iff.mp he'
    rcases List.mem_append.mp hm with hm | hm
    · exact ⟨e, hname ▸ he, hm⟩
    · rw [List.mem_singleton.mp hm, hnot] at hp
      cases hp
  · exact ⟨e', he', hm⟩

/-- What is in a queue after a registration was there before. -/
theorem register_hub {hub : Hub Tagged} {who name : String} {monitors : List Rect}
    {e' : Entry Tagged} {m : Tagged}
    (he' : (hub.clients.put who ⟨[], monitors⟩).get? name = some e') (hm : m ∈ e'.outbox) :
    ∃ e, hub.clients.get? name = some e ∧ m ∈ e.outbox := by
  rw [Dict.get?_put] at he'
  split at he'
  · obtain rfl := Option.some.inj he'
    cases hm
  · exact ⟨e', he', hm⟩

/-- What is in a queue after a client left was there before. -/
theorem unregister_hub {hub : Hub Tagged} {who name : String} {e' : Entry Tagged} {m : Tagged}
    (he' : (hub.removeClient who).clients.get? name = some e') (hm : m ∈ e'.outbox) :
    ∃ e, hub.clients.get? name = some e ∧ m ∈ e.outbox := by
  rw [Hub.removeClient, Dict.get?_drop] at he'
  split at he'
  · cases he'
  · exact ⟨e', he', hm⟩

/-- What is in a queue after a message was taken off was there before. -/
theorem consume_hub {hub : Hub Tagged} {who name : String} {msg : Tagged} {rest : List Tagged}
    {monitors : List Rect} {e' : Entry Tagged} {m : Tagged}
    (he : hub.clients.get? who = some ⟨msg :: rest, monitors⟩)
    (he' : (hub.clients.put who ⟨rest, monitors⟩).get? name = some e') (hm : m ∈ e'.outbox) :
    ∃ e, hub.clients.get? name = some e ∧ m ∈ e.outbox := by
  rw [Dict.get?_put] at he'
  split at he'
  · next hname =>
    obtain rfl := Option.some.inj he'
    exact ⟨_, hname ▸ he, List.mem_cons_of_mem msg hm⟩
  · exact ⟨e', he', hm⟩

/-- Delivering an answer queues no read. -/
theorem deliver_hub_reads {s s' : FileRun} {rid : Nat} (h : s.deliver rid = some s')
    {name : String} {e' : Entry Tagged} {m : Tagged} (he' : s'.hub.clients.get? name = some e')
    (hm : m ∈ e'.outbox) (hread : m.msg.fileRead?.isSome = true) :
    ∃ e, s.hub.clients.get? name = some e ∧ m ∈ e.outbox := by
  obtain ⟨-, -, -, -, -, -, waiting, args, result, -, hhub⟩ := deliver_frame h
  rw [hhub] at he'
  cases waiting with
  | toLocal tx => exact ⟨e', he', hm⟩
  | toClient to_ req => exact send_hub (p := fun m => m.fileRead?.isSome) he' hm hread rfl

/-- A refusal is no read, so the reads in a queue were there before. -/
theorem refuse_hub_reads {s : FileRun} {req : Nat} {name : String} {e' : Entry Tagged}
    {m : Tagged} (he' : (s.refuse req).hub.clients.get? name = some e') (hm : m ∈ e'.outbox)
    (hread : m.msg.fileRead?.isSome = true) :
    ∃ e, s.hub.clients.get? name = some e ∧ m ∈ e.outbox := by
  unfold refuse at he'
  obtain ⟨-, hhub, -⟩ := s.resolve_frame req fun _ => .err .notFound
  generalize s.resolve req (fun _ => .err .notFound) = out at *
  obtain ⟨s₁, found⟩ := out
  dsimp only at *
  cases found with
  | none => exact ⟨e', hhub ▸ he', hm⟩
  | some rid =>
    dsimp only at he'
    cases hd : s₁.deliver rid with
    | none =>
      rw [hd, Option.getD_none, hhub] at he'
      exact ⟨e', he', hm⟩
    | some s₂ =>
      rw [hd, Option.getD_some] at he'
      exact hhub ▸ deliver_hub_reads hd he' hm hread

end FileRun

/-- A request that is known stays what it was, and entries of the table stay recorded. -/
theorem FileStep.origin {s s' : FileRun} {l : FileLabel}
    (hfresh : ∀ rid r, s.requests.get? rid = some r → rid < s.nextRid) (h : FileStep s l s') :
    (∀ rid o, s.origin rid = some o → s'.origin rid = some o) ∧ s.routed ⊆ s'.routed := by
  -- a step that keeps every origin, and one that touches no request at all
  have hkeep : ∀ {s₁ : FileRun}, (∀ rid, s₁.origin rid = s.origin rid) →
      ∀ rid o, s.origin rid = some o → s₁.origin rid = some o := fun h rid o ho => (h rid).trans ho
  have hsame : (∀ rid o, s.origin rid = some o → s.origin rid = some o) ∧ s.routed ⊆ s.routed :=
    ⟨fun _ _ h => h, List.Subset.refl _⟩
  cases h with
  -- a new request takes a number nobody has
  | ask =>
    refine ⟨fun rid o ho => ?_, List.Subset.refl _⟩
    obtain ⟨r, hr, -⟩ := Option.map_eq_some_iff.mp ho
    unfold FileRun.origin at ho ⊢
    rw [Dict.get?_put, if_neg (Nat.ne_of_lt (hfresh rid r hr))]
    exact ho
  -- a request that moves on keeps whom it is for
  | ownerNone hr => exact ⟨hkeep fun _ => FileRun.origin_setPc _ _ _ _, List.Subset.refl _⟩
  | ownerServer hr => exact ⟨hkeep fun _ => FileRun.origin_setPc _ _ _ _, List.Subset.refl _⟩
  | ownerClient hr howner => exact ⟨hkeep fun _ => FileRun.origin_setPc _ _ _ _, List.Subset.refl _⟩
  | insert hr => exact ⟨hkeep fun _ => FileRun.origin_setPc s _ _ _, List.subset_append_left _ _⟩
  | serve hr => exact ⟨hkeep fun _ => FileRun.origin_setPc s _ _ _, List.Subset.refl _⟩
  -- refusing answers a request, and leaves its origin
  | @retract rid req hsend =>
    obtain ⟨-, -, -, -, hrouted, horigin⟩ := s.refuse_frame req
    exact ⟨hkeep horigin, hrouted ▸ List.Subset.refl _⟩
  | @answerStale cid req reqs hc =>
    obtain ⟨-, -, -, -, hrouted, horigin⟩ := s.refuse_frame req
    exact ⟨hkeep horigin, hrouted ▸ List.Subset.refl _⟩
  | deliver hd =>
    obtain ⟨-, -, -, -, hrouted, horigin, -⟩ := FileRun.deliver_frame hd
    exact ⟨hkeep horigin, hrouted ▸ List.Subset.refl _⟩
  | @replyNone from_ req result hp =>
    obtain ⟨-, -, -, -, -, hrouted, horigin⟩ :=
      s.resolve_frame req fun sentTo => FileRouter.reply sentTo from_ result
    exact ⟨hkeep horigin, hrouted ▸ List.Subset.refl _⟩
  | @replySome from_ req result p hp =>
    obtain ⟨-, -, -, -, -, hrouted, horigin⟩ :=
      s.resolve_frame req fun sentTo => FileRouter.reply sentTo from_ result
    exact ⟨hkeep horigin, hrouted ▸ List.Subset.refl _⟩
  -- the rest is about the hub, or about who owns the copy
  | sent hsend => exact hsame
  | unsent hsend => exact hsame
  | announce => exact hsame
  | setLocal => exact hsame
  | dropOwner => exact hsame
  | collect hc => exact hsame
  | register hfree => exact hsame
  | unregister => exact hsame
  | consume he => exact hsame
  | traffic hreply hread => exact hsame

end GeserDesk
