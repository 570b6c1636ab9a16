import Mathlib
import GeserDesk.Server.Trust

/-!
# Pending requests and the clock

The pending list of `geserdesk-server/src/trust.rs` with the `last_seen` of each request, which
`Trust` leaves to the clock, and what the subscribers are told. Times are in nanoseconds;
`elapsed` of a time that is not past yet is zero.

* **`TrustAt.notePending_toTrust`**: without the times it is `Trust.notePending`, with what the
  clock says of each request.
-/

namespace GeserDesk

/-- A pending request and when it was last seen. -/
structure PendingAt where
  request : Trust.Pending
  lastSeen : Nat
deriving DecidableEq, Repr

/-- Pending requests older than this are forgotten. -/
def PENDING_TTL : Nat := 600 * 10 ^ 9

/-- What a request is for. -/
def PendingAt.key (e : PendingAt) : String × Fingerprint := (e.request.name, e.request.fingerprint)

def PendingAt.alive (now : Nat) (e : PendingAt) : Bool := decide (now - e.lastSeen < PENDING_TTL)

/-- Change the first element that satisfies `p`. -/
def updateFirst {α : Type} (p : α → Bool) (f : α → α) : List α → List α
  | [] => []
  | a :: l => if p a then f a :: l else a :: updateFirst p f l

structure TrustAt where
  trusted : Dict String Fingerprint := ∅
  pending : List PendingAt := []

namespace TrustAt

/-- The requests that have not expired. -/
def retained (t : TrustAt) (now : Nat) : List PendingAt := t.pending.filter (PendingAt.alive now)

/-- The request that makes room for a new one. -/
def displaced (t : TrustAt) (now : Nat) (name : String) (fp : Fingerprint) : Option PendingAt :=
  if (t.retained now).any (·.request.is name fp) then none
  else if Trust.maxPending ≤ (t.retained now).length then (t.retained now).head?
  else none

/-- `Trust::note_pending`: record (or refresh) a request, and what the subscribers are told. -/
def notePending (t : TrustAt) (now : Nat) (name : String) (fp : Fingerprint) (addr : String) :
    TrustAt × Option Trust.Pending :=
  let pending := t.retained now
  let replaces := t.trusted.get? name
  if pending.any (·.request.is name fp) then
    ({ t with pending := updateFirst (·.request.is name fp) (fun e =>
        ⟨{ e.request with addr := addr, replaces := replaces }, now⟩) pending }, none)
  else
    let pending := if Trust.maxPending ≤ pending.length then pending.tail else pending
    let request : Trust.Pending := ⟨name, fp, addr, replaces⟩
    ({ t with pending := pending ++ [⟨request, now⟩] }, some request)

/-- `Trust::pending`. -/
def pendingNow (t : TrustAt) (now : Nat) : TrustAt × List Trust.Pending :=
  ({ t with pending := t.retained now }, (t.retained now).map PendingAt.request)

/-- `Trust::approve`. It looks at what is listed, whatever its age. -/
def approve (t : TrustAt) (name : String) (fp : Fingerprint) : TrustAt × Bool :=
  if t.pending.any (·.request.is name fp) then
    ({ trusted := t.trusted.put name fp,
       pending := t.pending.filter (·.request.name != name) }, true)
  else (t, false)

/-- `Trust::dismiss`. -/
def dismiss (t : TrustAt) (name : String) (fp : Fingerprint) : TrustAt × Bool :=
  let pending := t.pending.filter fun e => !e.request.is name fp
  ({ t with pending := pending }, pending.length != t.pending.length)

/-- `Trust::revoke`. -/
def revoke (t : TrustAt) (name : String) : TrustAt × Option Fingerprint :=
  ({ t with trusted := t.trusted.drop name }, t.trusted.get? name)

/-- `Trust::restore`. -/
def restore (t : TrustAt) (name : String) (fp : Option Fingerprint) : TrustAt :=
  match fp with
  | some fp => { t with trusted := t.trusted.put name fp }
  | none => { t with trusted := t.trusted.drop name }

/-! ## Without the times

The list with times, what has expired set aside, is the one without. -/

def toTrust (t : TrustAt) : Trust :=
  { trusted := t.trusted, pending := t.pending.map PendingAt.request }

/-- What the clock says of a request: it is not among the ones that are retained. -/
def expired (t : TrustAt) (now : Nat) (p : Trust.Pending) : Bool :=
  !(t.retained now).any fun e => e.request == p

/-- Without its times the list is approved from in the same way. -/
theorem approve_toTrust (t : TrustAt) (name : String) (fp : Fingerprint) :
    ((t.approve name fp).1.toTrust, (t.approve name fp).2) = t.toTrust.approve name fp := by
  have hany : t.toTrust.pending.any (Trust.Pending.is name fp)
      = t.pending.any (·.request.is name fp) := by rw [toTrust, List.any_map]; rfl
  unfold approve Trust.approve
  rw [hany]
  split
  · simp only [toTrust, Prod.mk.injEq, Trust.mk.injEq, true_and, and_true, List.filter_map]
    rfl
  · rfl

/-- Without its times the list is dismissed from in the same way. -/
theorem dismiss_toTrust (t : TrustAt) (name : String) (fp : Fingerprint) :
    ((t.dismiss name fp).1.toTrust, (t.dismiss name fp).2) = t.toTrust.dismiss name fp := by
  unfold dismiss Trust.dismiss
  simp only [toTrust, List.filter_map, List.length_map]
  rfl

end TrustAt

/-- Changing the entry at the first index that fits is changing the first that fits. -/
theorem modify_findIdx {α : Type} (p : α → Bool) (f : α → α) (l : List α) :
    l.modify (l.findIdx p) f = updateFirst p f l := by
  induction l with
  | nil => rfl
  | cons a l ih =>
    rw [updateFirst, List.findIdx_cons]
    cases p a with
    | true => rfl
    | false => exact congrArg (a :: ·) ih

/-- A change of the first that fits goes along with a map, where the change itself does. -/
theorem map_updateFirst {α β : Type} (g : α → β) {p : α → Bool} {f : α → α} {p' : β → Bool}
    {f' : β → β} (hp : ∀ a, p' (g a) = p a) (hf : ∀ a, g (f a) = f' (g a)) (l : List α) :
    (updateFirst p f l).map g = updateFirst p' f' (l.map g) := by
  induction l with
  | nil => rfl
  | cons a l ih =>
    rw [updateFirst, List.map_cons, updateFirst, hp]
    split
    · rw [List.map_cons, hf]
    · rw [List.map_cons, ih]

/-- With one entry for each request, the entries retained are those the clock has not expired. -/
theorem TrustAt.retained_map {t : TrustAt} (now : Nat) (hn : (t.pending.map PendingAt.key).Nodup) :
    t.toTrust.pending.filter (!t.expired now ·) = (t.retained now).map PendingAt.request := by
  rw [TrustAt.toTrust, List.filter_map, TrustAt.retained]
  refine congrArg (List.map PendingAt.request) (List.filter_congr fun e he => ?_)
  rw [Function.comp_apply, TrustAt.expired, Bool.not_not, Bool.eq_iff_iff, List.any_eq_true]
  constructor
  · rintro ⟨e', he', heq⟩
    obtain ⟨hmem, halive⟩ := List.mem_filter.mp he'
    have hkey : e'.key = e.key := by rw [PendingAt.key, beq_iff_eq.mp heq]; rfl
    rwa [List.inj_on_of_nodup_map hn hmem he hkey] at halive
  · exact fun h => ⟨e, List.mem_filter.mpr ⟨he, h⟩, beq_self_eq_true _⟩

/-- Without its times a request is noted in the same way, whatever has expired. -/
theorem TrustAt.notePending_toTrust {t : TrustAt} (now : Nat) (name : String) (fp : Fingerprint)
    (addr : String) (hn : (t.pending.map PendingAt.key).Nodup) :
    (t.notePending now name fp addr).1.toTrust
      = t.toTrust.notePending (t.expired now) name fp addr := by
  have hany : ((t.retained now).map PendingAt.request).any (Trust.Pending.is name fp)
      = (t.retained now).any (·.request.is name fp) := by rw [List.any_map]; rfl
  unfold TrustAt.notePending Trust.notePending
  simp only [TrustAt.retained_map now hn, hany, modify_findIdx]
  split
  · refine congrArg (Trust.mk t.trusted) ?_
    exact map_updateFirst PendingAt.request (fun _ => rfl) (fun _ => rfl) _
  · refine congrArg (Trust.mk t.trusted) ?_
    rw [List.length_map]
    split
    · rw [List.map_append, List.map_tail]; rfl
    · rw [List.map_append]; rfl

end GeserDesk
