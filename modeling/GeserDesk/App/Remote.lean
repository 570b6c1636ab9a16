import Mathlib.Data.Finset.Erase
import Mathlib.Data.Finset.Insert
import GeserDesk.Lib.Transition

/-!
# A controller's requests

`Remote` of `geserdesk-app/src/control/remote.rs`: any number of `request` calls, each through its
lock sections and its look at the `closed` flag, with the reader task and the writer task between
them. `R` is what a reply is.

* **`requests_resolve`**: every call resolves, once; with the daemon's answer only if one with its
  own id came; and once the reader is done nothing waits, nor will.
-/

namespace GeserDesk

/-- A line from the daemon. -/
inductive DaemonLine (R : Type) where
  | response (id : Nat) (result : Except String R)
  | event
  | unparsable

/-- What a waiting call is sent. -/
inductive Heard (R : Type) where
  | response (result : Except String R)
  /-- The reader found the daemon gone. -/
  | ended

/-- How a call ends. -/
inductive RequestEnd (R : Type) where
  | answered (result : Except String R)
  | disconnected
  | unanswered

/-- What the call returns. -/
def RequestEnd.result {R : Type} : RequestEnd R → Except String R
  | .answered result => result
  | .disconnected => .error "daemon terputus"
  | .unanswered => .error "daemon tidak menjawab"

/-- Where a call is. -/
inductive RequestPc (R : Type) where
  /-- It has its id. -/
  | numbered
  /-- It is in the table. -/
  | registered
  /-- It found the connection open. -/
  | «open»
  /-- Its line is queued. -/
  | waiting
  /-- The connection is gone; it has to leave the table. -/
  | refused
  /-- Its time is up; it has to leave the table. -/
  | late
  | resolved (ended : RequestEnd R)

inductive ReaderPc where
  | reading
  /-- No more lines come. -/
  | ended
  /-- The flag is set. -/
  | marked
  | done
deriving DecidableEq, Repr

/-- An attached controller with all its calls. -/
structure Remote (R : Type) where
  next : Nat := 1
  calls : Nat → Option (RequestPc R) := fun _ => none
  /-- The calls whose senders are in the table. -/
  pending : Finset Nat := ∅
  /-- What each call has been sent. -/
  slots : Nat → Option (Heard R) := fun _ => none
  closed : Bool := false
  /-- The writer task takes lines. -/
  writing : Bool := true
  reader : ReaderPc := .reading
  /-- The responses that came, by id. -/
  arrived : List (Nat × Except String R) := []

inductive RemoteLabel (R : Type) where
  /-- A call starts and takes the next id. -/
  | call
  | insert (id : Nat)
  | check (id : Nat)
  | send (id : Nat)
  | hear (id : Nat)
  | timeout (id : Nat)
  /-- A call takes its own entry away, if it is there, and returns. -/
  | forget (id : Nat)
  | read (line : DaemonLine R)
  | endOfStream
  | mark
  | drain
  | writerFails

namespace Remote

variable {R : Type}

def setCall (s : Remote R) (id : Nat) (pc : RequestPc R) : Remote R :=
  { s with calls := Function.update s.calls id (some pc) }

def step (s : Remote R) : RemoteLabel R → Option (Remote R)
  | .call => some { s.setCall s.next .numbered with next := s.next + 1 }
  | .insert id =>
    match s.calls id with
    | some .numbered => some { s.setCall id .registered with pending := insert id s.pending }
    | _ => none
  | .check id =>
    match s.calls id with
    | some .registered => some (s.setCall id (if s.closed then .refused else .open))
    | _ => none
  | .send id =>
    match s.calls id with
    | some .open => some (s.setCall id (if s.writing then .waiting else .refused))
    | _ => none
  | .hear id =>
    match s.calls id with
    | some .waiting =>
      match s.slots id with
      | some (.response result) => some (s.setCall id (.resolved (.answered result)))
      | some .ended => some (s.setCall id (.resolved .disconnected))
      | none =>
        -- nothing more can come once the sender is gone
        if id ∈ s.pending then none else some (s.setCall id (.resolved .disconnected))
    | _ => none
  | .timeout id =>
    match s.calls id, s.slots id with
    | some .waiting, none => some (s.setCall id .late)
    | _, _ => none
  | .forget id =>
    match s.calls id with
    | some .refused =>
      some { s.setCall id (.resolved .disconnected) with pending := s.pending.erase id }
    | some .late =>
      some { s.setCall id (.resolved .unanswered) with pending := s.pending.erase id }
    | _ => none
  | .read line =>
    if s.reader = .reading then
      match line with
      | .response id result =>
        let s := { s with arrived := s.arrived ++ [(id, result)] }
        if id ∈ s.pending then
          some { s with
            pending := s.pending.erase id
            slots := Function.update s.slots id (some (.response result)) }
        else some s
      | .event | .unparsable => some s
    else none
  | .endOfStream => if s.reader = .reading then some { s with reader := .ended } else none
  | .mark =>
    if s.reader = .ended then some { s with closed := true, reader := .marked } else none
  | .drain =>
    if s.reader = .marked then
      some { s with
        pending := ∅
        slots := fun id => if id ∈ s.pending then some .ended else s.slots id
        reader := .done }
    else none
  | .writerFails => some { s with writing := false }

end Remote

def remoteRuns (R : Type) : Lts (Remote R) (RemoteLabel R) where
  init s := s = {}
  step := Remote.step

variable {R : Type}

/-- At most how many steps a call still takes. -/
def RequestPc.left : RequestPc R → Nat
  | .numbered => 5
  | .registered => 4
  | .open => 3
  | .waiting => 2
  | .refused | .late => 1
  | .resolved _ => 0

/-- The call whose step it is. -/
def RemoteLabel.caller : RemoteLabel R → Option Nat
  | .insert id | .check id | .send id | .hear id | .timeout id | .forget id => some id
  | _ => none

/-! ## The invariant

Whoever waits is in the table under his own number, and the answers in flight are to numbers that
were given out. -/

namespace Remote

variable {s s' : Remote R} {id : Nat}

/-- Where a call is says whether it is in the table and whether it has been sent something. -/
def Fits (s : Remote R) (id : Nat) : Prop :=
  match s.calls id with
  | none => id ∉ s.pending ∧ s.slots id = none
  | some .numbered => id ∉ s.pending ∧ s.slots id = none
  | some .registered =>
    (id ∈ s.pending ∧ s.slots id = none) ∨ (id ∉ s.pending ∧ (s.slots id).isSome = true)
  | some .open | some .waiting =>
    (id ∈ s.pending ∧ s.slots id = none ∧ s.reader ≠ .done)
      ∨ (id ∉ s.pending ∧ (s.slots id).isSome = true)
  | some .refused | some .late => id ∈ s.pending → s.slots id = none
  | some (.resolved ended) =>
    id ∉ s.pending ∧ ∀ result, ended = .answered result → (id, result) ∈ s.arrived

structure Inv (s : Remote R) : Prop where
  fits : ∀ id, s.Fits id
  fresh : ∀ id, s.next ≤ id → s.calls id = none
  heard : ∀ id result, s.slots id = some (.response result) → (id, result) ∈ s.arrived
  closed : s.closed = true ↔ s.reader = .marked ∨ s.reader = .done

/-- All that plays a part for a call is as before. -/
theorem Fits.congr (h : s.Fits id) (hcalls : s'.calls id = s.calls id)
    (hpending : id ∈ s'.pending ↔ id ∈ s.pending) (hslots : s'.slots id = s.slots id)
    (hreader : s'.reader = .done → s.reader = .done)
    (harrived : ∀ x ∈ s.arrived, x ∈ s'.arrived) : s'.Fits id := by
  unfold Fits at h ⊢
  rw [hcalls, hslots]
  cases hcall : s.calls id with
  | none => rw [hcall] at h; exact ⟨fun hin => h.1 (hpending.mp hin), h.2⟩
  | some pc =>
    rw [hcall] at h
    cases pc with
    | numbered => exact ⟨fun hin => h.1 (hpending.mp hin), h.2⟩
    | registered =>
      rcases h with h | h
      · exact .inl ⟨hpending.mpr h.1, h.2⟩
      · exact .inr ⟨fun hin => h.1 (hpending.mp hin), h.2⟩
    | «open» | waiting =>
      rcases h with h | h
      · exact .inl ⟨hpending.mpr h.1, h.2.1, fun hdone => h.2.2 (hreader hdone)⟩
      · exact .inr ⟨fun hin => h.1 (hpending.mp hin), h.2⟩
    | refused | late => exact fun hin => h (hpending.mp hin)
    | resolved ended =>
      exact ⟨fun hin => h.1 (hpending.mp hin), fun result hres => harrived _ (h.2 result hres)⟩

/-- A call moves, by itself or with its entry in the table. -/
theorem Inv.move (h : s.Inv) {pc : RequestPc R} (pending : Finset Nat) (hid : id < s.next)
    (hpending : ∀ k, k ≠ id → (k ∈ pending ↔ k ∈ s.pending))
    (hfits : ({ s.setCall id pc with pending := pending } : Remote R).Fits id) :
    ({ s.setCall id pc with pending := pending } : Remote R).Inv := by
  refine ⟨fun k => ?_, fun k hk => ?_, h.heard, h.closed⟩
  · by_cases hki : k = id
    · rw [hki]
      exact hfits
    · exact (h.fits k).congr (Function.update_of_ne hki _ _) (hpending k hki) rfl (fun hd => hd)
        fun _ hx => hx
  · have hki : k ≠ id := by
      have hk : s.next ≤ k := hk
      omega
    exact (Function.update_of_ne hki _ _).trans (h.fresh k hk)

/-- A call has a number that was given. -/
theorem Inv.lt_next (h : s.Inv) {pc : RequestPc R} (hcall : s.calls id = some pc) :
    id < s.next := by
  by_contra hge
  rw [h.fresh id (Nat.not_lt.mp hge)] at hcall
  cases hcall

/-- The call that was set is the one found. -/
theorem setCall_calls (s : Remote R) (id : Nat) (pc : RequestPc R) :
    (s.setCall id pc).calls id = some pc := Function.update_self _ _ _

/-! ### Label by label

A call that moves keeps its own part (`Inv.move`); the reader's steps keep every call's. -/

/-- A call that begins is not in the table, and has been sent nothing. -/
theorem Inv.call_step (h : s.Inv) (hl : s.step .call = some s') : s'.Inv := by
  cases hl
  have hnone := h.fresh s.next (Nat.le_refl _)
  have hfits := h.fits s.next
  unfold Fits at hfits
  rw [hnone] at hfits
  refine ⟨fun k => ?_, fun k hk => ?_, h.heard, h.closed⟩
  · by_cases hk : k = s.next
    · rw [hk]
      unfold Fits
      rw [show ({ s.setCall s.next .numbered with next := s.next + 1 } : Remote R).calls s.next
        = some .numbered from setCall_calls _ _ _]
      exact hfits
    · exact (h.fits k).congr (Function.update_of_ne hk _ _) Iff.rfl rfl (fun hd => hd)
        fun _ hx => hx
  · have hk : s.next + 1 ≤ k := hk
    exact (Function.update_of_ne (by omega) _ _).trans (h.fresh k (by omega))

/-- Its sender goes into the table. -/
theorem Inv.insert_step {id : Nat} (h : s.Inv) (hl : s.step (.insert id) = some s') : s'.Inv := by
  dsimp only [step] at hl
  split at hl
  · next hcall =>
    cases hl
    have hfits := h.fits id
    unfold Fits at hfits
    rw [hcall] at hfits
    refine h.move _ (h.lt_next hcall) (fun k hk => by rw [Finset.mem_insert]; simp [hk]) ?_
    unfold Fits
    rw [show ({ s.setCall id .registered with pending := Insert.insert id s.pending }
      : Remote R).calls id = some .registered from setCall_calls _ _ _]
    exact .inl ⟨Finset.mem_insert_self _ _, hfits.2⟩
  · cases hl

/-- It finds the connection open, or closed. -/
theorem Inv.check_step {id : Nat} (h : s.Inv) (hl : s.step (.check id) = some s') : s'.Inv := by
  dsimp only [step] at hl
  split at hl
  · next hcall =>
    cases hl
    have hfits := h.fits id
    unfold Fits at hfits
    rw [hcall] at hfits
    refine h.move s.pending (h.lt_next hcall) (fun _ _ => Iff.rfl) ?_
    unfold Fits
    rw [show ({ s.setCall id (if s.closed then .refused else .open) with pending := s.pending }
      : Remote R).calls id = some (if s.closed then .refused else .open)
      from setCall_calls _ _ _]
    split_ifs with hclosed
    · exact fun hin => hfits.elim (fun hf => hf.2) fun hf => absurd hin hf.1
    · refine hfits.imp_left fun hf => ⟨hf.1, hf.2, fun hdone => hclosed ?_⟩
      exact h.closed.mpr (.inr hdone)
  · cases hl

/-- Its line is queued, unless the writer is gone. -/
theorem Inv.send_step {id : Nat} (h : s.Inv) (hl : s.step (.send id) = some s') : s'.Inv := by
  dsimp only [step] at hl
  split at hl
  · next hcall =>
    cases hl
    have hfits := h.fits id
    unfold Fits at hfits
    rw [hcall] at hfits
    refine h.move s.pending (h.lt_next hcall) (fun _ _ => Iff.rfl) ?_
    unfold Fits
    rw [show ({ s.setCall id (if s.writing then .waiting else .refused) with
      pending := s.pending } : Remote R).calls id
        = some (if s.writing then .waiting else .refused) from setCall_calls _ _ _]
    split_ifs
    · exact hfits
    · exact fun hin => hfits.elim (fun hf => hf.2.1) fun hf => absurd hin hf.1
  · cases hl

/-- It hears what it was sent, or that nothing can come any more. -/
theorem Inv.hear_step {id : Nat} (h : s.Inv) (hl : s.step (.hear id) = some s') : s'.Inv := by
  dsimp only [step] at hl
  split at hl
  · next hcall =>
    have hfits := h.fits id
    unfold Fits at hfits
    rw [hcall] at hfits
    have hresolve : ∀ ended : RequestEnd R, id ∉ s.pending →
        (∀ result, ended = .answered result → (id, result) ∈ s.arrived) →
        (s.setCall id (.resolved ended)).Inv := by
      intro ended hout hanswer
      refine h.move s.pending (h.lt_next hcall) (fun _ _ => Iff.rfl) ?_
      unfold Fits
      rw [show ({ s.setCall id (.resolved ended) with pending := s.pending }
        : Remote R).calls id = some (.resolved ended) from setCall_calls _ _ _]
      exact ⟨hout, hanswer⟩
    -- what was sent something is out of the table
    have hout : ∀ x, s.slots id = some x → id ∉ s.pending := by
      intro x hx
      rcases hfits with hf | hf
      · rw [hf.2.1] at hx
        cases hx
      · exact hf.1
    split at hl
    · next result hslot =>
      cases hl
      refine hresolve _ (hout _ hslot) fun result' hres => ?_
      cases hres
      exact h.heard id result hslot
    · next hslot =>
      cases hl
      exact hresolve _ (hout _ hslot) nofun
    · split_ifs at hl with hin
      cases hl
      exact hresolve _ hin nofun
  · cases hl

/-- Its time is up with nothing sent. -/
theorem Inv.timeout_step {id : Nat} (h : s.Inv) (hl : s.step (.timeout id) = some s') : s'.Inv := by
  dsimp only [step] at hl
  split at hl
  · next hcall hslot =>
    cases hl
    refine h.move s.pending (h.lt_next hcall) (fun _ _ => Iff.rfl) ?_
    unfold Fits
    rw [show ({ s.setCall id .late with pending := s.pending } : Remote R).calls id
      = some .late from setCall_calls _ _ _]
    exact fun _ => hslot
  · cases hl

/-- It takes its own entry away. -/
theorem Inv.forget_step {id : Nat} (h : s.Inv) (hl : s.step (.forget id) = some s') : s'.Inv := by
  have hleave : ∀ (pc : RequestPc R) (ended : RequestEnd R), s.calls id = some pc →
      (∀ result, ended ≠ .answered result) →
      ({ s.setCall id (.resolved ended) with pending := s.pending.erase id } : Remote R).Inv := by
    intro pc ended hcall hnot
    refine h.move _ (h.lt_next hcall) (fun k hk => by rw [Finset.mem_erase]; simp [hk]) ?_
    unfold Fits
    rw [show ({ s.setCall id (.resolved ended) with pending := s.pending.erase id }
      : Remote R).calls id = some (.resolved ended) from setCall_calls _ _ _]
    exact ⟨Finset.notMem_erase _ _, fun result hres => absurd hres (hnot result)⟩
  dsimp only [step] at hl
  split at hl
  · next hcall =>
    cases hl
    exact hleave _ _ hcall nofun
  · next hcall =>
    cases hl
    exact hleave _ _ hcall nofun
  · cases hl

/-- A response reaches the call it names, if that one is in the table, and takes it out. -/
theorem Inv.read_step {line : DaemonLine R} (h : s.Inv) (hl : s.step (.read line) = some s') :
    s'.Inv := by
  dsimp only [step] at hl
  split_ifs at hl with hreading
  cases line with
  | event => cases hl; exact h
  | unparsable => cases hl; exact h
  | response id result =>
    dsimp only at hl
    have hkeep : ∀ x ∈ s.arrived, x ∈ s.arrived ++ [(id, result)] :=
      fun x hx => List.mem_append_left _ hx
    split_ifs at hl with hin
    · cases hl
      refine ⟨fun k => ?_, h.fresh, fun k result' hslot => ?_, h.closed⟩
      · by_cases hk : k = id
        · -- the call is in the table, so it is on its way
          rw [hk]
          have hfits := h.fits id
          unfold Fits at hfits ⊢
          cases hcall : s.calls id with
          | none => rw [hcall] at hfits; exact absurd hin hfits.1
          | some pc =>
            rw [hcall] at hfits
            have hout : id ∉ s.pending.erase id := Finset.notMem_erase _ _
            have hslot : (Function.update s.slots id (some (Heard.response result)) id).isSome
                = true := by rw [Function.update_self]; rfl
            cases pc with
            | numbered => exact absurd hin hfits.1
            | registered => exact .inr ⟨hout, hslot⟩
            | «open» => exact .inr ⟨hout, hslot⟩
            | waiting => exact .inr ⟨hout, hslot⟩
            | refused => exact fun hmem => absurd hmem hout
            | late => exact fun hmem => absurd hmem hout
            | resolved ended => exact absurd hin hfits.1
        · refine (h.fits k).congr rfl ?_ (Function.update_of_ne hk _ _) (fun hd => hd) hkeep
          show k ∈ s.pending.erase id ↔ k ∈ s.pending
          rw [Finset.mem_erase]
          simp [hk]
      · have hslot : Function.update s.slots id (some (Heard.response result)) k
            = some (.response result') := hslot
        by_cases hk : k = id
        · rw [hk, Function.update_self] at hslot
          cases hslot
          rw [hk]
          exact List.mem_append_right _ List.mem_cons_self
        · rw [Function.update_of_ne hk] at hslot
          exact hkeep _ (h.heard k result' hslot)
    · cases hl
      exact ⟨fun k => (h.fits k).congr rfl Iff.rfl rfl (fun hd => hd) hkeep, h.fresh,
        fun k result' hslot => hkeep _ (h.heard k result' hslot), h.closed⟩

/-- The end of the stream: no more lines come. -/
theorem Inv.endOfStream_step (h : s.Inv) (hl : s.step .endOfStream = some s') : s'.Inv := by
  dsimp only [step] at hl
  split_ifs at hl with hreading
  cases hl
  refine ⟨fun k => (h.fits k).congr rfl Iff.rfl rfl nofun fun _ hx => hx, h.fresh, h.heard, ?_⟩
  have hclosed := h.closed
  rw [hreading] at hclosed
  simpa using hclosed

/-- `closed` is set. -/
theorem Inv.mark_step (h : s.Inv) (hl : s.step .mark = some s') : s'.Inv := by
  dsimp only [step] at hl
  split_ifs at hl with hended
  cases hl
  exact ⟨fun k => (h.fits k).congr rfl Iff.rfl rfl nofun fun _ hx => hx, h.fresh, h.heard,
    by simp⟩

/-- All calls in the table are told the connection is gone. -/
theorem Inv.drain_step (h : s.Inv) (hl : s.step .drain = some s') : s'.Inv := by
  dsimp only [step] at hl
  split_ifs at hl with hmarked
  cases hl
  refine ⟨fun k => ?_, h.fresh, fun k result hslot => ?_, ?_⟩
  · have hfits := h.fits k
    unfold Fits at hfits ⊢
    dsimp only
    cases hcall : s.calls k with
    | none =>
      rw [hcall] at hfits
      rw [if_neg hfits.1]
      exact ⟨Finset.notMem_empty k, hfits.2⟩
    | some pc =>
      rw [hcall] at hfits
      have hout : k ∉ (∅ : Finset Nat) := Finset.notMem_empty k
      cases pc with
      | numbered =>
        rw [if_neg hfits.1]
        exact ⟨hout, hfits.2⟩
      | registered =>
        refine .inr ⟨hout, ?_⟩
        rcases hfits with hf | hf
        · rw [if_pos hf.1]; rfl
        · rw [if_neg hf.1]; exact hf.2
      | «open» | waiting =>
        refine .inr ⟨hout, ?_⟩
        rcases hfits with hf | hf
        · rw [if_pos hf.1]; rfl
        · rw [if_neg hf.1]; exact hf.2
      | refused => exact fun hmem => absurd hmem hout
      | late => exact fun hmem => absurd hmem hout
      | resolved ended => exact ⟨hout, hfits.2⟩
  · dsimp only at hslot
    split_ifs at hslot
    · cases hslot
    · exact h.heard k result hslot
  · exact ⟨fun _ => .inr rfl, fun _ => h.closed.mpr (.inl hmarked)⟩

/-- **No step breaks the invariant.** -/
theorem inv_step (h : s.Inv) {l : RemoteLabel R} (hl : s.step l = some s') : s'.Inv := by
  cases l with
  | call => exact Inv.call_step h hl
  | insert id => exact Inv.insert_step h hl
  | check id => exact Inv.check_step h hl
  | send id => exact Inv.send_step h hl
  | hear id => exact Inv.hear_step h hl
  | timeout id => exact Inv.timeout_step h hl
  | forget id => exact Inv.forget_step h hl
  | read line => exact Inv.read_step h hl
  | endOfStream => exact Inv.endOfStream_step h hl
  | mark => exact Inv.mark_step h hl
  | drain => exact Inv.drain_step h hl
  | writerFails =>
    cases hl
    exact ⟨fun k => (h.fits k).congr rfl Iff.rfl rfl (fun hd => hd) fun _ hx => hx, h.fresh,
      h.heard, h.closed⟩

/-- The invariant holds in every state reached. -/
theorem inv_reach (hs : (remoteRuns R).Reachable s) : s.Inv := by
  refine Lts.Reach.invariant (P := Inv) ?_ (fun _ _ _ _ ih _ hl => inv_step ih hl) hs
  rintro s rfl
  exact ⟨fun id => ⟨Finset.notMem_empty id, rfl⟩, fun _ _ => rfl, nofun, by simp⟩

/-! ## How a call goes on

A call of a controller is never stuck: a step of its own, of the writer or of the reader brings it
nearer to its end. -/

/-- What a step does to the calls: it takes its caller further, and past the flag only if that is
not set; or it adds one; or it leaves them. -/
theorem step_calls {l : RemoteLabel R} (hl : s.step l = some s') :
    (∃ k before after, RemoteLabel.caller l = some k ∧ s.calls k = some before
      ∧ after.left < before.left ∧ s'.calls = (s.setCall k after).calls ∧ s'.closed = s.closed
      ∧ (s.closed = true → after = .open ∨ after = .waiting ∨ after = .late →
        before = .open ∨ before = .waiting))
    ∨ (RemoteLabel.caller l = none ∧ s'.calls = (s.setCall s.next .numbered).calls
      ∧ s'.closed = s.closed)
    ∨ (RemoteLabel.caller l = none ∧ s'.calls = s.calls
      ∧ (s.closed = true → s'.closed = true)) := by
  -- a caller's own step brings its call nearer to the end; the reader's steps move no call
  cases l with
  | call =>
    cases hl
    exact .inr (.inl ⟨rfl, rfl, rfl⟩)
  | insert k =>
    dsimp only [step] at hl
    split at hl
    · next hk =>
      cases hl
      exact .inl ⟨k, _, .registered, rfl, hk, by simp [RequestPc.left], rfl, rfl, by simp⟩
    · cases hl
  | check k =>
    dsimp only [step] at hl
    split at hl
    · next hk =>
      cases hl
      refine .inl ⟨k, _, _, rfl, hk, ?_, rfl, rfl, fun hclosed => ?_⟩
      · split_ifs <;> simp [RequestPc.left]
      · rw [if_pos hclosed]
        simp
    · cases hl
  | send k =>
    dsimp only [step] at hl
    split at hl
    · next hk =>
      cases hl
      refine .inl ⟨k, _, _, rfl, hk, ?_, rfl, rfl, fun _ _ => .inl rfl⟩
      split_ifs <;> simp [RequestPc.left]
    · cases hl
  | hear k =>
    dsimp only [step] at hl
    split at hl
    · next hk =>
      split at hl
      · cases hl
        exact .inl ⟨k, _, _, rfl, hk, by simp [RequestPc.left], rfl, rfl, fun _ _ => .inr rfl⟩
      · cases hl
        exact .inl ⟨k, _, _, rfl, hk, by simp [RequestPc.left], rfl, rfl, fun _ _ => .inr rfl⟩
      · split_ifs at hl
        cases hl
        exact .inl ⟨k, _, _, rfl, hk, by simp [RequestPc.left], rfl, rfl, fun _ _ => .inr rfl⟩
    · cases hl
  | timeout k =>
    dsimp only [step] at hl
    split at hl
    · next hk _ =>
      cases hl
      exact .inl ⟨k, _, _, rfl, hk, by simp [RequestPc.left], rfl, rfl, fun _ _ => .inr rfl⟩
    · cases hl
  | forget k =>
    dsimp only [step] at hl
    split at hl
    · next hk =>
      cases hl
      exact .inl ⟨k, _, .resolved .disconnected, rfl, hk, by simp [RequestPc.left], rfl, rfl,
        by simp⟩
    · next hk =>
      cases hl
      exact .inl ⟨k, _, .resolved .unanswered, rfl, hk, by simp [RequestPc.left], rfl, rfl,
        by simp⟩
    · cases hl
  | read line =>
    dsimp only [step] at hl
    split_ifs at hl
    cases line with
    | response k result =>
      dsimp only at hl
      split_ifs at hl <;> cases hl <;> exact .inr (.inr ⟨rfl, rfl, fun hc => hc⟩)
    | event => cases hl; exact .inr (.inr ⟨rfl, rfl, fun hc => hc⟩)
    | unparsable => cases hl; exact .inr (.inr ⟨rfl, rfl, fun hc => hc⟩)
  | endOfStream =>
    dsimp only [step] at hl
    split_ifs at hl
    cases hl
    exact .inr (.inr ⟨rfl, rfl, fun hc => hc⟩)
  | mark =>
    dsimp only [step] at hl
    split_ifs at hl
    cases hl
    exact .inr (.inr ⟨rfl, rfl, fun _ => rfl⟩)
  | drain =>
    dsimp only [step] at hl
    split_ifs at hl
    cases hl
    exact .inr (.inr ⟨rfl, rfl, fun hc => hc⟩)
  | writerFails =>
    cases hl
    exact .inr (.inr ⟨rfl, rfl, fun hc => hc⟩)

/-- The other calls are as they were. -/
theorem setCall_other {k : Nat} (hk : id ≠ k) (pc : RequestPc R) :
    (s.setCall k pc).calls id = s.calls id := Function.update_of_ne hk _ _

/-- A step of a call takes it further; no other step takes it back. -/
theorem goes_on (h : s.Inv) {l : RemoteLabel R} (hl : s.step l = some s') {pc : RequestPc R}
    (hcall : s.calls id = some pc) : ∃ pc', s'.calls id = some pc'
      ∧ (RemoteLabel.caller l = some id → pc'.left < pc.left)
      ∧ (pc' = pc ∨ pc'.left < pc.left) := by
  rcases step_calls hl with ⟨k, before, after, hown, hk, hless, hcalls, -, -⟩
    | ⟨hown, hcalls, -⟩ | ⟨hown, hcalls, -⟩
  · rw [hcalls]
    by_cases hid : id = k
    · subst hid
      rw [hcall] at hk
      cases hk
      exact ⟨after, setCall_calls _ _ _, fun _ => hless, .inr hless⟩
    · refine ⟨pc, (setCall_other hid _).trans hcall, fun hcaller => ?_, .inl rfl⟩
      rw [hown] at hcaller
      cases hcaller
      exact absurd rfl hid
  · have hne : id ≠ s.next := Nat.ne_of_lt (h.lt_next hcall)
    refine ⟨pc, by rw [hcalls, setCall_other hne, hcall], fun hcaller => ?_, .inl rfl⟩
    rw [hown] at hcaller
    cases hcaller
  · refine ⟨pc, by rw [hcalls, hcall], fun hcaller => ?_, .inl rfl⟩
    rw [hown] at hcaller
    cases hcaller

/-- A call that has not resolved can always take its next step itself. -/
theorem can_go_on (s : Remote R) {pc : RequestPc R} (hcall : s.calls id = some pc)
    (hopen : 0 < pc.left) : ∃ l s', RemoteLabel.caller l = some id ∧ s.step l = some s' := by
  cases pc with
  | numbered => exact ⟨.insert id, _, rfl, by dsimp only [step]; rw [hcall]⟩
  | registered => exact ⟨.check id, _, rfl, by dsimp only [step]; rw [hcall]⟩
  | «open» => exact ⟨.send id, _, rfl, by dsimp only [step]; rw [hcall]⟩
  | waiting =>
    cases hslot : s.slots id with
    | none => exact ⟨.timeout id, _, rfl, by dsimp only [step]; rw [hcall, hslot]⟩
    | some heard =>
      cases heard with
      | response result =>
        exact ⟨.hear id, _, rfl, by dsimp only [step]; rw [hcall]; dsimp only; rw [hslot]⟩
      | ended => exact ⟨.hear id, _, rfl, by dsimp only [step]; rw [hcall]; dsimp only; rw [hslot]⟩
  | refused => exact ⟨.forget id, _, rfl, by dsimp only [step]; rw [hcall]⟩
  | late => exact ⟨.forget id, _, rfl, by dsimp only [step]; rw [hcall]⟩
  | resolved ended => exact absurd hopen (Nat.lt_irrefl 0)

/-! ## Whole runs

Every call is answered by the daemon's answer to it or knows that there will be none, and after
the close nobody starts to wait. -/

/-- A call that has resolved stays as it is. -/
theorem resolved_stays (h : s.Inv) {ended : RequestEnd R}
    (hcall : s.calls id = some (.resolved ended)) {ls : List (RemoteLabel R)}
    (hrun : (remoteRuns R).run s ls = some s') : s'.calls id = some (.resolved ended) := by
  induction ls generalizing s with
  | nil => cases hrun; exact hcall
  | cons l ls ih =>
    rw [Lts.run] at hrun
    split at hrun
    · next s₁ hl =>
      obtain ⟨pc', hcall', -, hsame | hless⟩ := goes_on h hl hcall
      · exact ih (inv_step h hl) (hsame ▸ hcall') hrun
      · exact absurd hless (Nat.not_lt_zero _)
    · cases hrun

/-- A call that has not looked at the flag yet, or that is turned away by it. -/
def Outside (s : Remote R) (id : Nat) : Prop :=
  match s.calls id with
  | some .open | some .waiting | some .late => False
  | _ => True

/-- Once the flag is set, who has not looked at it yet will not wait. -/
theorem outside_step (hclosed : s.closed = true) (hout : s.Outside id) {l : RemoteLabel R}
    (hl : s.step l = some s') : s'.closed = true ∧ s'.Outside id := by
  unfold Outside at hout ⊢
  rcases step_calls hl with ⟨k, before, after, -, hk, -, hcalls, hflag, hpast⟩
    | ⟨-, hcalls, hflag⟩ | ⟨-, hcalls, hflag⟩
  · refine ⟨hflag.trans hclosed, ?_⟩
    rw [hcalls]
    by_cases hid : id = k
    · subst hid
      rw [setCall_calls]
      have hnot : ¬(before = .open ∨ before = .waiting) := by
        rintro (rfl | rfl) <;> rw [hk] at hout <;> exact hout
      have hafter := fun hin => hnot (hpast hclosed hin)
      cases after with
      | «open» => exact hafter (.inl rfl)
      | waiting => exact hafter (.inr (.inl rfl))
      | late => exact hafter (.inr (.inr rfl))
      | numbered | registered | refused | resolved => trivial
    · rw [setCall_other hid]
      exact hout
  · refine ⟨hflag.trans hclosed, ?_⟩
    rw [hcalls]
    by_cases hid : id = s.next
    · rw [hid, setCall_calls]
      trivial
    · rw [setCall_other hid]
      exact hout
  · rw [hcalls]
    exact ⟨hflag hclosed, hout⟩

/-- A call that is outside stays so for the rest of a run after the close. -/
theorem outside_run (hclosed : s.closed = true) (hout : s.Outside id)
    {ls : List (RemoteLabel R)} (hrun : (remoteRuns R).run s ls = some s') : s'.Outside id := by
  induction ls generalizing s with
  | nil => cases hrun; exact hout
  | cons l ls ih =>
    rw [Lts.run] at hrun
    split at hrun
    · next s₁ hl =>
      obtain ⟨hclosed', hout'⟩ := outside_step hclosed hout hl
      exact ih hclosed' hout' hrun
    · cases hrun

/-- What holds of a controller's calls in a state. -/
structure Resolves (s : Remote R) : Prop where
  /-- A call that resolved does not resolve again. -/
  once : ∀ id ended, s.calls id = some (.resolved ended) → ∀ ls s',
    (remoteRuns R).run s ls = some s' → s'.calls id = some (.resolved ended)
  /-- One that has not can go on by itself, and each of its steps brings it nearer; no step of
  another takes it back. -/
  ends : ∀ id pc, s.calls id = some pc → (∀ ended, pc ≠ .resolved ended) →
    (∃ l s', RemoteLabel.caller l = some id ∧ s.step l = some s')
      ∧ ∀ l s', s.step l = some s' → ∃ pc', s'.calls id = some pc'
        ∧ (RemoteLabel.caller l = some id → pc'.left < pc.left) ∧ pc'.left ≤ pc.left
  own : ∀ id result, s.calls id = some (.resolved (.answered result)) → (id, result) ∈ s.arrived
  /-- With the reader done, who waits has been told. -/
  told : s.reader = .done → ∀ id, s.calls id = some .waiting → (s.slots id).isSome = true
  /-- And who has not looked at the flag yet never waits. -/
  turned : s.reader = .done → ∀ id,
    s.calls id = none ∨ s.calls id = some .numbered ∨ s.calls id = some .registered →
    ∀ ls s', (remoteRuns R).run s ls = some s' → s'.calls id ≠ some .waiting
  empty : (∀ id pc, s.calls id = some pc → ∃ ended, pc = .resolved ended) → s.pending = ∅

end Remote

/-- **Every call resolves, once**, in every interleaving. -/
theorem requests_resolve {R : Type} {s : Remote R} (hs : (remoteRuns R).Reachable s) :
    s.Resolves := by
  have hinv := Remote.inv_reach hs
  refine ⟨fun id ended hcall ls s' hrun => Remote.resolved_stays hinv hcall hrun,
    fun id pc hcall hopen => ⟨?_, fun l s' hl => ?_⟩, fun id result hcall => ?_,
    fun hdone id hcall => ?_, fun hdone id hcall ls s' hrun hwaits => ?_, fun hall => ?_⟩
  -- a call that is not over has a next step of its own
  · refine Remote.can_go_on s hcall ?_
    cases pc with
    | resolved ended => exact absurd rfl (hopen ended)
    | numbered | registered | «open» | waiting | refused | late => simp [RequestPc.left]
  -- every step of the system leaves a call as it is, or brings it nearer to the end
  · obtain ⟨pc', hcall', hown, hless⟩ := Remote.goes_on hinv hl hcall
    refine ⟨pc', hcall', hown, ?_⟩
    rcases hless with rfl | hless
    · exact Nat.le_refl _
    · exact Nat.le_of_lt hless
  -- a result is that of the daemon's answer
  · have hfits := hinv.fits id
    unfold Remote.Fits at hfits
    rw [hcall] at hfits
    exact hfits.2 result rfl
  -- after the close a call is answered or knows that nobody will
  · have hfits := hinv.fits id
    unfold Remote.Fits at hfits
    rw [hcall] at hfits
    rcases hfits with hf | hf
    · exact absurd hdone hf.2.2
    · exact hf.2
  -- once closed, nobody waits for an answer any more
  · have hclosed : s.closed = true := hinv.closed.mpr (.inr hdone)
    have hout : s.Outside id := by
      unfold Remote.Outside
      rcases hcall with hcall | hcall | hcall <;> rw [hcall] <;> trivial
    have hend := Remote.outside_run hclosed hout hrun
    unfold Remote.Outside at hend
    rw [hwaits] at hend
    exact hend
  -- when all calls are over, nothing is left in the table
  · refine Finset.eq_empty_of_forall_notMem fun id hin => ?_
    have hfits := hinv.fits id
    unfold Remote.Fits at hfits
    cases hcall : s.calls id with
    | none =>
      rw [hcall] at hfits
      exact hfits.1 hin
    | some pc =>
      obtain ⟨ended, rfl⟩ := hall id pc hcall
      rw [hcall] at hfits
      exact hfits.1 hin

/-- Two calls: one is answered, the other is in the table when the daemon goes away. -/
theorem requests_resolve_two : ∃ s : Remote Unit, s.Resolves
    ∧ (s.calls 1).map RequestPc.left = some 0 ∧ (s.slots 2).isSome = true
    ∧ s.arrived.length = 1 := by
  have hend : ((remoteRuns Unit).run {} [.call, .call, .insert 1, .insert 2, .check 1, .check 2,
      .send 2, .send 1, .read (.response 1 (.ok ())), .hear 1, .endOfStream, .mark, .drain]).map
      (fun s => decide ((s.calls 1).map RequestPc.left = some 0 ∧ (s.slots 2).isSome = true
        ∧ s.arrived.length = 1)) = some true := by decide +kernel
  obtain ⟨s, hrun, hd⟩ := Option.map_eq_some_iff.mp hend
  exact ⟨s, requests_resolve (Lts.reachable_of_run rfl hrun), of_decide_eq_true hd⟩

end GeserDesk
