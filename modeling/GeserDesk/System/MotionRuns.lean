import Mathlib.Algebra.Group.Prod
import Mathlib.Algebra.Group.Int.Defs
import GeserDesk.Lib.Transition
import GeserDesk.Platform.X11

/-!
# The X11 backend and the X server — is motion conserved?

The server has a pointer; a physical motion and a `WarpPointer` change it, and while the
pointer is grabbed each change queues a `MotionNotify` with the new position. Requests reach
the server in the order they are sent, events the backend in the order they were queued, both
after any delay. Two sums are kept from the moment the grab takes its reference point: what the
backend has emitted, and what the pointer was moved by hand.

* **`motion_conserved`**: with the queue drained the sums agree, in every run in which no motion
  by hand ends exactly on the centre and a grab finds no event queued that would be taken for a
  later one (`CenterIsWarp`).
* **`motion_through_center_is_lost`**: a motion that ends on the centre while the warp is in
  flight is taken for the warp's own event, and the part of it that led there is never emitted.
-/

namespace GeserDesk

/-- What the backend asks of the server without waiting for an answer. -/
inductive XRequest where
  | warpPointer (p : Point)
  | ungrabPointer
deriving DecidableEq

structure MotionRun where
  cap : X11Capture
  /-- `grab` holds the pointer and has not taken its reference point yet. -/
  grabbing : Bool := false
  /-- The server reports motion to the backend. -/
  pointerGrabbed : Bool := false
  pos : Point
  /-- Requests sent and not carried out yet. -/
  requests : List XRequest := []
  /-- The `MotionNotify` events queued and not delivered yet. -/
  queue : List Point := []
  /-- What has been emitted since the grab's reference point. -/
  emitted : Int × Int := (0, 0)
  /-- What the pointer has been moved by hand since then. -/
  moved : Int × Int := (0, 0)

inductive MotionLabel where
  /-- The pointer is moved by hand. -/
  | move (p : Point)
  /-- The server carries out the next request. -/
  | serve
  /-- `Capture::grab` takes the pointer; the answer comes after everything sent before. -/
  | grabPointer
  /-- The keyboard is grabbed by another program. -/
  | grabFails
  /-- `Capture::grab` asks where the pointer is, sends it to the centre, and is done. -/
  | queryPointer
  | release (warpTo : Option Point)
  /-- The backend takes the next event. -/
  | deliver

/-- The displacement from `p` to `q`. -/
def Point.to (p q : Point) : Int × Int := (q.x - p.x, q.y - p.y)

/-- What an event says the pointer was moved by. -/
def CaptureEvent.displacement : Option CaptureEvent → Int × Int
  | some (.motion dx dy) => (dx, dy)
  | _ => (0, 0)

namespace MotionRun

/-- The pointer arrives at `p`. -/
def arrive (s : MotionRun) (p : Point) : MotionRun :=
  if p = s.pos then s
  else { s with pos := p, queue := if s.pointerGrabbed then s.queue ++ [p] else s.queue }

def step (s : MotionRun) : MotionLabel → Option MotionRun
  | .move p => some { s.arrive p with moved := s.moved + s.pos.to p }
  | .serve =>
    match s.requests with
    | [] => none
    | .warpPointer p :: requests => some { s.arrive p with requests := requests }
    | .ungrabPointer :: requests => some { s with pointerGrabbed := false, requests := requests }
  | .grabPointer =>
    if s.requests = [] ∧ s.cap.grabbed = false ∧ s.grabbing = false then
      some { s with grabbing := true, pointerGrabbed := true }
    else none
  | .grabFails =>
    if s.grabbing then
      some { s with grabbing := false, requests := s.requests ++ [.ungrabPointer] }
    else none
  | .queryPointer =>
    if s.grabbing then
      let (cap, p) := s.cap.grab s.pos
      some { s with cap := cap, grabbing := false, requests := s.requests ++ [.warpPointer p],
                    emitted := (0, 0), moved := (0, 0) }
    else none
  | .release warpTo =>
    if s.grabbing then none
    else
      let (cap, p) := s.cap.release warpTo
      some { s with cap := cap,
                    requests := s.requests ++ [.ungrabPointer] ++ (p.map .warpPointer).toList }
  | .deliver =>
    match s.queue with
    | [] => none
    | p :: queue =>
      if s.grabbing then none
      -- `on_event` takes no notice of motion while nothing is grabbed.
      else if !s.cap.grabbed then some { s with queue := queue }
      else
        let (cap, ev, warp) := s.cap.onMotion p
        some { s with cap := cap, queue := queue,
                      requests := s.requests ++ (warp.map .warpPointer).toList,
                      emitted := s.emitted + CaptureEvent.displacement ev }

end MotionRun

/-- The backend and the X server, as a transition system. -/
def motionRuns : Lts MotionRun MotionLabel where
  init s := ∃ root keymap key pos,
    s = { cap := { root := root, keymap := keymap, hotkeyKey := key, last := root.center },
          pos := pos }
  step := MotionRun.step

/-- While grabbed, no motion by hand ends exactly on the centre; and where a grab takes its
reference point, the events still queued end there and none is one for the centre. -/
def CenterIsWarp (s : MotionRun) : MotionLabel → Prop
  | .move p => s.cap.grabbed = true → p ≠ s.pos → p ≠ s.cap.root.center
  | .queryPointer => s.cap.root.center ∉ s.queue ∧ s.queue.getLast?.getD s.pos = s.pos
  | _ => True

instance (s : MotionRun) (l : MotionLabel) : Decidable (CenterIsWarp s l) := by
  unfold CenterIsWarp
  split <;> infer_instance

/-! ## The reference point

Motion is told against the last point seen. A jump into the centre moves that point and owes the
motion it undoes. -/

/-- The centre is where it is sent: a pointer at the centre stays inside the root window and
inside 16 bits. -/
theorem RootWindow.warp_center (r : RootWindow) : r.warp r.center = r.center := by
  have hw := r.width_pos
  have hh := r.height_pos
  have hw' := r.width_lt
  have hh' := r.height_lt
  have hx : r.center.x = (r.width / 2 : Nat) := by
    simp [RootWindow.center, RootWindow.bounds, Rect.center]
  have hy : r.center.y = (r.height / 2 : Nat) := by
    simp [RootWindow.center, RootWindow.bounds, Rect.center]
  have hclamp : r.bounds.clamp r.center = r.center := by
    have hxy : r.center = ⟨r.center.x, r.center.y⟩ := rfl
    rw [hxy, hx, hy]
    simp only [Rect.clamp, RootWindow.bounds, Rect.left, Rect.right, Rect.top, Rect.bottom,
      Point.mk.injEq]
    omega
  rw [RootWindow.warp, hclamp, hx, hy, Int.bmod_eq_of_le (by omega) (by omega),
    Int.bmod_eq_of_le (by omega) (by omega), ← hx, ← hy]

/-- The way from one point to another goes over any third. -/
theorem Point.to_add (p q r : Point) : p.to q + q.to r = p.to r := by
  ext <;> simp [Point.to]

/-- From a point to itself there is no way to go. -/
@[simp] theorem Point.to_self (p : Point) : p.to p = (0, 0) := by simp [Point.to]

/-- What the events still queued will be taken for, from the last position the backend saw: an
event for the centre adds nothing, any other its distance from the one before. -/
def owed (center : Point) : Point → List Point → Int × Int
  | _, [] => (0, 0)
  | last, p :: queue => (if p = center then (0, 0) else last.to p) + owed center p queue

/-- A point more at the end of the queue owes the way to it, or nothing if it is the centre's. -/
theorem owed_snoc (center last : Point) (queue : List Point) (p : Point) :
    owed center last (queue ++ [p]) = owed center last queue
      + (if p = center then (0, 0) else (queue.getLast?.getD last).to p) := by
  induction queue generalizing last with
  | nil => exact add_comm _ _
  | cons q queue ih =>
    have hlast : (q :: queue).getLast?.getD last = queue.getLast?.getD q := by
      rw [List.getLast?_cons]; rfl
    rw [List.cons_append, owed, ih, owed, hlast, add_assoc]

/-- Without an event for the centre the queued events are owed all of the way they go. -/
theorem owed_of_not_mem {center : Point} {queue : List Point} (h : center ∉ queue)
    (last : Point) : owed center last queue = last.to (queue.getLast?.getD last) := by
  induction queue generalizing last with
  | nil => simp [owed]
  | cons q queue ih =>
    have hq : q ≠ center := fun e => h (e ▸ List.mem_cons_self)
    have hlast : (q :: queue).getLast?.getD last = queue.getLast?.getD q := by
      rw [List.getLast?_cons]; rfl
    rw [owed, if_neg hq, ih (fun hm => h (List.mem_cons_of_mem _ hm)), Point.to_add, hlast]

/-! ## The invariant -/

/-- What a grab in progress and a grab that stands know. -/
structure MotionInv (s : MotionRun) : Prop where
  /-- The round trip of the grab leaves nothing outstanding. -/
  grabbing : s.grabbing = true → s.requests = [] ∧ s.pointerGrabbed = true ∧ s.cap.grabbed = false
  /-- Only warps to the centre are on their way, and the server reports motion. -/
  reported : s.cap.grabbed = true → s.pointerGrabbed = true
    ∧ ∀ r ∈ s.requests, r = .warpPointer s.cap.root.center
  /-- The last event queued is where the pointer is. -/
  endpoint : s.cap.grabbed = true → s.queue.getLast?.getD s.cap.last = s.pos
  /-- Between warps the backend measures from the centre, which is then the last position. -/
  settled : s.cap.grabbed = true → s.cap.expectingCenter = false → s.cap.last = s.cap.root.center
  /-- What is emitted and what is still owed is what was moved. -/
  account : s.cap.grabbed = true →
    s.emitted + owed s.cap.root.center s.cap.last s.queue = s.moved

namespace MotionRun

/-- The last of the queue is the one that was added. -/
theorem getLast?_getD_append (queue : List Point) (p last : Point) :
    (queue ++ [p]).getLast?.getD last = p := by
  rw [List.getLast?_concat]; rfl

/-- While grabbed, the pointer arriving somewhere is the next event. -/
theorem arrive_of_grabbed {s : MotionRun} (h : s.pointerGrabbed = true) {p : Point}
    (hp : p ≠ s.pos) : s.arrive p = { s with pos := p, queue := s.queue ++ [p] } := by
  rw [arrive, if_neg hp, if_pos h]

/-- Arriving where the pointer is tells nothing. -/
theorem arrive_self (s : MotionRun) : s.arrive s.pos = s := if_pos rfl

/-- Only the pointer and the queue change when the pointer arrives somewhere. -/
theorem arrive_frame (s : MotionRun) (p : Point) :
    (s.arrive p).cap = s.cap ∧ (s.arrive p).grabbing = s.grabbing
      ∧ (s.arrive p).pointerGrabbed = s.pointerGrabbed ∧ (s.arrive p).requests = s.requests := by
  unfold arrive
  split <;> exact ⟨rfl, rfl, rfl, rfl⟩

end MotionRun

/-- What one event does while grabbed: it emits what it is owed, becomes the last position, and
asks for nothing but a warp to the centre. -/
theorem X11Capture.onMotion_spec {c c' : X11Capture} {p : Point} {ev : Option CaptureEvent}
    {warp : Option Point} (hset : c.expectingCenter = false → c.last = c.root.center)
    (h : c.onMotion p = (c', ev, warp)) :
    c'.root = c.root ∧ c'.grabbed = c.grabbed ∧ c'.last = p
      ∧ (c'.expectingCenter = false → p = c.root.center)
      ∧ CaptureEvent.displacement ev = (if p = c.root.center then (0, 0) else c.last.to p)
      ∧ ∀ q ∈ warp, q = c.root.center := by
  unfold onMotion at h
  cases hexp : c.expectingCenter with
  -- the jump into the centre is awaited: motion to there is the jump itself
  | true =>
    rw [if_pos hexp] at h
    by_cases hp : p = c.root.center
    · rw [if_pos hp] at h
      obtain ⟨rfl, rfl, rfl⟩ := h
      exact ⟨rfl, rfl, rfl, fun _ => hp, by rw [if_pos hp]; rfl, by simp⟩
    -- any other motion is the hand's, before the jump is seen
    · rw [if_neg hp] at h
      obtain ⟨rfl, rfl, rfl⟩ := h
      refine ⟨rfl, rfl, rfl, fun he => absurd (hexp.symm.trans he) (by decide), ?_, by simp⟩
      rw [if_neg hp]
      split
      · next hzero =>
        rw [Point.to, hzero.1, hzero.2]; rfl
      · rfl
  | false =>
    have hlast := hset hexp
    rw [if_neg (by rw [hexp]; decide)] at h
    -- motion that ends in the centre without a jump
    by_cases hp : p = c.root.center
    · rw [if_pos (by rw [hp]; omega)] at h
      obtain ⟨rfl, rfl, rfl⟩ := h
      exact ⟨rfl, rfl, hlast.trans hp.symm, fun _ => hp, by rw [if_pos hp]; rfl, by simp⟩
    -- motion out of the centre, which is answered with a jump
    · have hne : ¬(p.x - c.root.center.x = 0 ∧ p.y - c.root.center.y = 0) := by
        rintro ⟨hx, hy⟩
        refine hp ?_
        have hx' : p.x = c.root.center.x := by omega
        have hy' : p.y = c.root.center.y := by omega
        calc p = ⟨p.x, p.y⟩ := rfl
          _ = c.root.center := by rw [hx', hy']
      rw [if_neg hne] at h
      obtain ⟨rfl, rfl, rfl⟩ := h
      refine ⟨rfl, rfl, rfl, fun he => absurd he (by simp), ?_, fun q hq => ?_⟩
      · rw [if_neg hp, hlast]; rfl
      · rw [Option.mem_some_iff] at hq
        rw [← hq, RootWindow.warp_center]

/-! ## The runs

What was told, what is owed and what is still on its way make up the motion of the hand. -/

/-- A motion by hand, or the server's own warp, while grabbed: the account follows it, if what
queues an event for the centre is a warp there. -/
theorem MotionInv.arrive {s : MotionRun} (hi : MotionInv s) (hg : s.cap.grabbed = true)
    {p : Point} (hp : p ≠ s.pos) :
    (s.arrive p).queue.getLast?.getD s.cap.last = p
      ∧ (s.arrive p).emitted + owed s.cap.root.center s.cap.last (s.arrive p).queue
        = s.moved + (if p = s.cap.root.center then (0, 0) else s.pos.to p) := by
  rw [MotionRun.arrive_of_grabbed (hi.reported hg).1 hp]
  refine ⟨MotionRun.getLast?_getD_append _ _ _, ?_⟩
  rw [owed_snoc, hi.endpoint hg, ← add_assoc, hi.account hg]

/-- A motion of the user adds the same to what was moved and to what is owed. -/
theorem MotionInv.move {s : MotionRun} (hi : MotionInv s) {p : Point}
    (hok : CenterIsWarp s (.move p)) :
    MotionInv { s.arrive p with moved := s.moved + s.pos.to p } := by
  obtain ⟨hcap, hgb, hpg, hreq⟩ := s.arrive_frame p
  by_cases hp : p = s.pos
  · have hzero : s.moved + s.pos.to p = s.moved := by rw [hp, Point.to_self]; exact add_zero _
    rw [hzero, hp, MotionRun.arrive_self]
    exact hi
  · refine ⟨fun h => ?_, fun h => ?_, fun h => ?_, fun h => ?_, fun h => ?_⟩
    · show (s.arrive p).requests = [] ∧ (s.arrive p).pointerGrabbed = true
        ∧ (s.arrive p).cap.grabbed = false
      rw [hcap, hpg, hreq]
      exact hi.grabbing (hgb ▸ h)
    · show (s.arrive p).pointerGrabbed = true
        ∧ ∀ r ∈ (s.arrive p).requests, r = .warpPointer (s.arrive p).cap.root.center
      rw [hcap, hpg, hreq]
      exact hi.reported (hcap ▸ h)
    · have hg : s.cap.grabbed = true := hcap ▸ h
      show (s.arrive p).queue.getLast?.getD (s.arrive p).cap.last = (s.arrive p).pos
      rw [hcap, (hi.arrive hg hp).1, MotionRun.arrive_of_grabbed (hi.reported hg).1 hp]
    · show (s.arrive p).cap.expectingCenter = false →
        (s.arrive p).cap.last = (s.arrive p).cap.root.center
      rw [hcap]
      exact hi.settled (hcap ▸ h)
    · have hg : s.cap.grabbed = true := hcap ▸ h
      show (s.arrive p).emitted
          + owed (s.arrive p).cap.root.center (s.arrive p).cap.last (s.arrive p).queue
        = s.moved + s.pos.to p
      rw [hcap, (hi.arrive hg hp).2, if_neg (hok hg hp)]

/-- A warp that is served brings the centre into the queue, which owes nothing. -/
theorem MotionInv.serveWarp {s : MotionRun} (hi : MotionInv s) {p : Point}
    {requests : List XRequest} (hr : s.requests = .warpPointer p :: requests) :
    MotionInv { s.arrive p with requests := requests } := by
  obtain ⟨hcap, hgb, hpg, -⟩ := s.arrive_frame p
  have hp : s.cap.grabbed = true → p = s.cap.root.center := fun hg => by
    have h := (hi.reported hg).2 (.warpPointer p) (hr ▸ List.mem_cons_self)
    exact XRequest.warpPointer.inj h
  refine ⟨fun h => ?_, fun h => ?_, fun h => ?_, fun h => ?_, fun h => ?_⟩
  · have hnil := (hi.grabbing (hgb ▸ h)).1
    rw [hr] at hnil
    cases hnil
  · have hg : s.cap.grabbed = true := hcap ▸ h
    show (s.arrive p).pointerGrabbed = true
      ∧ ∀ r ∈ requests, r = .warpPointer (s.arrive p).cap.root.center
    rw [hcap, hpg]
    refine ⟨(hi.reported hg).1, fun r hmem => (hi.reported hg).2 r ?_⟩
    rw [hr]
    exact List.mem_cons_of_mem _ hmem
  · have hg : s.cap.grabbed = true := hcap ▸ h
    show (s.arrive p).queue.getLast?.getD (s.arrive p).cap.last = (s.arrive p).pos
    by_cases hpos : p = s.pos
    · rw [hpos, MotionRun.arrive_self]; exact hi.endpoint hg
    · rw [hcap, (hi.arrive hg hpos).1, MotionRun.arrive_of_grabbed (hi.reported hg).1 hpos]
  · show (s.arrive p).cap.expectingCenter = false →
      (s.arrive p).cap.last = (s.arrive p).cap.root.center
    rw [hcap]
    exact hi.settled (hcap ▸ h)
  · have hg : s.cap.grabbed = true := hcap ▸ h
    have hmoved : (s.arrive p).moved = s.moved := by unfold MotionRun.arrive; split <;> rfl
    show (s.arrive p).emitted
        + owed (s.arrive p).cap.root.center (s.arrive p).cap.last (s.arrive p).queue
      = (s.arrive p).moved
    rw [hmoved]
    by_cases hpos : p = s.pos
    · rw [hpos, MotionRun.arrive_self]; exact hi.account hg
    · -- the warp's own event: the backend is owed nothing for it
      rw [hcap, (hi.arrive hg hpos).2, if_pos (hp hg)]
      exact add_zero _

/-- A motion that is delivered is emitted, and no longer owed. -/
theorem MotionInv.deliver {s : MotionRun} (hi : MotionInv s) (hg : s.cap.grabbed = true)
    (hgb : s.grabbing = false) {p : Point} {queue : List Point} (hq : s.queue = p :: queue)
    {cap : X11Capture} {ev : Option CaptureEvent} {warp : Option Point}
    (h : s.cap.onMotion p = (cap, ev, warp)) :
    MotionInv { s with cap := cap, queue := queue,
                       requests := s.requests ++ (warp.map .warpPointer).toList,
                       emitted := s.emitted + CaptureEvent.displacement ev } := by
  obtain ⟨hroot, hgrab, hlast, hset, hdisp, hwarp⟩ := X11Capture.onMotion_spec (hi.settled hg) h
  refine ⟨fun h => absurd (hgb.symm.trans h) (by decide), fun _ => ⟨(hi.reported hg).1, ?_⟩,
    fun _ => ?_, fun _ he => ?_, fun _ => ?_⟩
  · intro r hr
    show r = .warpPointer cap.root.center
    rw [hroot]
    rcases List.mem_append.mp hr with hr | hr
    · exact (hi.reported hg).2 r hr
    · rw [Option.mem_toList, Option.map_eq_some_iff] at hr
      obtain ⟨q, hqw, rfl⟩ := hr
      rw [hwarp q hqw]
  · have hend := hi.endpoint hg
    rw [hq, List.getLast?_cons] at hend
    show queue.getLast?.getD cap.last = s.pos
    rw [hlast]
    exact hend
  · show cap.last = cap.root.center
    rw [hlast, hroot]
    exact hset he
  · have hacc := hi.account hg
    rw [hq, owed] at hacc
    show s.emitted + CaptureEvent.displacement ev + owed cap.root.center cap.last queue = s.moved
    rw [hroot, hlast, hdisp, add_assoc]
    exact hacc

/-- **Every step keeps the account**: what was moved is what was emitted and what is owed. -/
theorem MotionInv.step {s s' : MotionRun} {l : MotionLabel} (hi : MotionInv s)
    (hok : CenterIsWarp s l) (h : MotionRun.step s l = some s') : MotionInv s' := by
  cases l with
  | move p =>
    cases h
    exact hi.move hok
  | serve =>
    rw [MotionRun.step] at h
    split at h
    · cases h
    · next p requests hr =>
      cases h
      exact hi.serveWarp hr
    · next requests hr =>
      cases h
      -- an ungrab is on its way only once the backend has let go
      have hfalse : s.cap.grabbed = true → False := fun hg => by
        have h := (hi.reported hg).2 .ungrabPointer (hr ▸ List.mem_cons_self)
        cases h
      have hgb : s.grabbing = true → False := fun hg => by
        have hnil := (hi.grabbing hg).1
        rw [hr] at hnil
        cases hnil
      exact ⟨fun h => (hgb h).elim, fun h => (hfalse h).elim, fun h => (hfalse h).elim,
        fun h => (hfalse h).elim, fun h => (hfalse h).elim⟩
  | grabPointer =>
    rw [MotionRun.step] at h
    split at h
    · next hc =>
      cases h
      obtain ⟨hreq, hgrab, -⟩ := hc
      have hfalse : s.cap.grabbed = true → False := fun hg => by rw [hgrab] at hg; cases hg
      exact ⟨fun _ => ⟨hreq, rfl, hgrab⟩, fun h => (hfalse h).elim, fun h => (hfalse h).elim,
        fun h => (hfalse h).elim, fun h => (hfalse h).elim⟩
    · cases h
  | grabFails =>
    rw [MotionRun.step] at h
    split at h
    · next hc =>
      cases h
      have hfalse : s.cap.grabbed = true → False := fun hg => by
        rw [(hi.grabbing hc).2.2] at hg
        cases hg
      exact ⟨fun h => (by cases h), fun h => (hfalse h).elim, fun h => (hfalse h).elim,
        fun h => (hfalse h).elim, fun h => (hfalse h).elim⟩
    · cases h
  | queryPointer =>
    rw [MotionRun.step] at h
    split at h
    · next hc =>
      cases h
      obtain ⟨hreq, hpg, -⟩ := hi.grabbing hc
      obtain ⟨hmem, hend⟩ := hok
      refine ⟨fun h => (by cases h), fun _ => ⟨hpg, fun r hr => ?_⟩, fun _ => hend,
        fun _ he => (by cases he), fun _ => ?_⟩
      · rw [hreq] at hr
        rw [List.mem_singleton.mp hr]
        exact congrArg _ s.cap.root.warp_center
      · -- the events already queued lead from the reference point back to it
        show (0, 0) + owed s.cap.root.center s.pos s.queue = (0, 0)
        rw [owed_of_not_mem hmem, hend, Point.to_self]
        rfl
    · cases h
  | release warpTo =>
    rw [MotionRun.step] at h
    split at h
    · cases h
    · next hc =>
      cases h
      exact ⟨fun h => absurd h hc, fun h => (by cases h), fun h => (by cases h),
        fun h => (by cases h), fun h => (by cases h)⟩
  | deliver =>
    rw [MotionRun.step] at h
    split at h
    · cases h
    · next p queue hq =>
      split at h
      · cases h
      · next hgb =>
        have hgb : s.grabbing = false := Bool.eq_false_iff.mpr hgb
        split at h
        · next hg =>
          cases h
          have hfalse : s.cap.grabbed = true → False := fun hg' => by rw [hg'] at hg; cases hg
          exact ⟨fun h => absurd (hgb.symm.trans h) (by decide), fun h => (hfalse h).elim,
            fun h => (hfalse h).elim, fun h => (hfalse h).elim, fun h => (hfalse h).elim⟩
        · next hg =>
          cases h
          exact hi.deliver (by simpa using hg) hgb hq rfl

/-- The invariant holds in every state reached. -/
theorem motionInv {s : MotionRun} (hs : motionRuns.Reach CenterIsWarp s) : MotionInv s := by
  refine hs.invariant (fun s h => ?_) fun s l s' _ hi hok hl => hi.step hok hl
  obtain ⟨root, keymap, key, pos, rfl⟩ := h
  exact ⟨fun h => (by cases h), fun h => (by cases h), fun h => (by cases h), fun h => (by cases h),
    fun h => (by cases h)⟩

/-- **Motion is conserved, as long as only the warp's own event is one for the centre.** With
the queue drained, what was emitted since the grab is what the pointer was moved by hand, a
warp still outstanding or not. -/
theorem motion_conserved {s : MotionRun} (hs : motionRuns.Reach CenterIsWarp s)
    (hg : s.cap.grabbed = true) (hq : s.queue = []) : s.emitted = s.moved := by
  have hacc := (motionInv hs).account hg
  rw [hq] at hacc
  exact (add_zero s.emitted).symm.trans hacc

/-! ## A grab with motion, and one whose motion ends on the centre -/

/-- A screen of 100 by 100 before any grab, the pointer at (10, 20). -/
def MotionRun.start : MotionRun :=
  { cap := { root := .hundred, keymap := ⟨8, 1, []⟩, hotkeyKey := none,
             last := ⟨50, 50⟩ },
    pos := ⟨10, 20⟩ }

/-- A capture at rest is a start. -/
theorem MotionRun.start_init : motionRuns.init MotionRun.start := ⟨_, _, _, _, rfl⟩

/-- A grab with a motion before the warp is carried out, one after it, and one after the next. -/
def movesBetween : List MotionLabel :=
  [.grabPointer, .move ⟨12, 20⟩, .queryPointer, .move ⟨15, 24⟩, .serve, .move ⟨51, 49⟩, .deliver,
   .deliver, .deliver, .deliver, .serve, .deliver, .move ⟨60, 50⟩, .deliver, .serve, .deliver]

/-- Moves before and after a warp come through whole. -/
theorem motion_conserved_between :
    ∃ s, motionRuns.exec CenterIsWarp .start movesBetween = some s ∧ s.emitted = (14, 3)
      ∧ s.emitted = s.moved :=
  have hsome : (motionRuns.exec CenterIsWarp .start movesBetween).isSome = true := by
    decide +kernel
  have hfin : ((motionRuns.exec CenterIsWarp .start movesBetween).map fun s =>
      (s.cap.grabbed, s.queue, s.emitted)) = some (true, [], (14, 3)) := by decide +kernel
  match h : motionRuns.exec CenterIsWarp .start movesBetween, hsome, hfin with
  | some s, _, hfin => by
    simp only [Option.map_some, Option.some.injEq, Prod.mk.injEq] at hfin
    obtain ⟨hg, hq, he⟩ := hfin
    exact ⟨s, rfl, he, motion_conserved (Lts.reach_of_exec MotionRun.start_init h) hg hq⟩

/-- A motion of ten and back, before the first event is delivered. -/
def throughCenter : List MotionLabel :=
  [.grabPointer, .queryPointer, .serve, .deliver, .move ⟨60, 50⟩, .move ⟨50, 50⟩, .deliver,
   .serve, .deliver]

/-- With the queue drained and no request outstanding the sums differ: the way back to the
centre is taken for the warp's own event, and the warp, which finds the pointer there, queues
none. -/
theorem motion_through_center_is_lost :
    ∃ s, motionRuns.Reachable s ∧ s.cap.grabbed = true ∧ s.queue = [] ∧ s.requests = []
      ∧ s.emitted = (10, 0) ∧ s.moved = (0, 0) :=
  have hgrab : ((motionRuns.run .start throughCenter).map fun s => s.cap.grabbed) = some true := by
    decide +kernel
  have hfin : ((motionRuns.run .start throughCenter).map fun s =>
      (s.queue, s.requests, s.emitted, s.moved)) = some ([], [], (10, 0), (0, 0)) := by
    decide +kernel
  match h : motionRuns.run .start throughCenter, hgrab, hfin with
  | some s, hgrab, hfin => by
    simp only [Option.map_some, Option.some.injEq, Prod.mk.injEq] at hgrab hfin
    obtain ⟨hq, hr, he, hm⟩ := hfin
    exact ⟨s, Lts.reachable_of_run MotionRun.start_init h, hgrab, hq, hr, he, hm⟩

end GeserDesk
