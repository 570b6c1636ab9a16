import GeserDesk.Lib.Dict
import GeserDesk.Lib.Transition
import GeserDesk.Proto.Clipboard

/-!
# One identity for a machine

`Identity::load_or_create` of `geserdesk-tls/src/identity.rs` on Unix, where `write_private` makes
the file itself or fails: any number of programs that call it at once on one path, each of which may
fail at any call of the operating system or die. Nobody else touches the file. What a certificate
and its key are, and how they are read out of the text, is a parameter (`PemFormat`).

* **`one_identity`**: whoever gets an identity gets the same.
* **`identity_settles`**: once nobody writes the file any more it stays as it is, whole or not, and
  every call from there on comes to what it says.
-/

namespace GeserDesk

/-- How identities are made and read. A text that breaks off early has the certificate and the key
of the whole, or none. -/
structure PemFormat (Cert Key : Type) where
  /-- The text of an identity, by what the generator drew. -/
  generate : Nat → Bytes
  certOf : Bytes → Option Cert
  keyOf : Bytes → Option Key
  cert_early : ∀ seed n, certOf ((generate seed).take n) = none
    ∨ certOf ((generate seed).take n) = certOf (generate seed)
  key_early : ∀ seed n, keyOf ((generate seed).take n) = none
    ∨ keyOf ((generate seed).take n) = keyOf (generate seed)

/-- A certificate and the private key that proves ownership of it. -/
structure Identity (Cert Key : Type) where
  cert : Cert
  key : Key
deriving DecidableEq

inductive IdentityError where
  | io
  | invalid (reason : String)
deriving DecidableEq

variable {Cert Key : Type}

namespace PemFormat

def fromPem (f : PemFormat Cert Key) (bytes : Bytes) : Except IdentityError (Identity Cert Key) :=
  match f.certOf bytes with
  | none => .error (.invalid "no certificate found")
  | some cert =>
    match f.keyOf bytes with
    | none => .error (.invalid "no private key found")
    | some key => .ok ⟨cert, key⟩

/-- What breaks off early gives the identity of the whole, if it gives one. -/
theorem fromPem_take (f : PemFormat Cert Key) {seed n : Nat} {id : Identity Cert Key}
    (h : f.fromPem ((f.generate seed).take n) = .ok id) : f.fromPem (f.generate seed) = .ok id := by
  unfold fromPem at h ⊢
  rcases f.cert_early seed n with hcert | hcert
  · rw [hcert] at h
    cases h
  · rcases f.key_early seed n with hkey | hkey
    · rw [hkey] at h
      split at h <;> cases h
    · rw [hcert, hkey] at h
      exact h

end PemFormat

/-- Where a call of `load_or_create` stands. -/
inductive IdentityPc (Cert Key : Type) where
  | start
  /-- There was no file; an identity is drawn, and is to be written. -/
  | creating (seed : Nat)
  /-- The file is made, and so much of it is written. -/
  | writing (seed : Nat) (n : Nat)
  | ended (result : Except IdentityError (Identity Cert Key))
  /-- The program is gone. -/
  | dead

structure IdentityRun (Cert Key : Type) where
  file : Option Bytes := none
  calls : Dict Nat (IdentityPc Cert Key) := ∅

inductive IdentityLabel where
  | call (p : Nat)
  /-- `read`, and if there is no file an identity is drawn. -/
  | read (p seed : Nat)
  /-- The directory is made and the file is opened with `create_new`. -/
  | create (p : Nat)
  /-- `write_all` writes some more. -/
  | write (p more : Nat)
  /-- All is written. -/
  | finish (p : Nat)
  /-- The operating system says no. -/
  | fail (p : Nat)
  | die (p : Nat)

namespace IdentityRun

def put (s : IdentityRun Cert Key) (p : Nat) (pc : IdentityPc Cert Key) : IdentityRun Cert Key :=
  { s with calls := s.calls.put p pc }

def step (f : PemFormat Cert Key) (s : IdentityRun Cert Key) :
    IdentityLabel → Option (IdentityRun Cert Key)
  | .call p =>
    match s.calls.get? p with
    | none => some (s.put p .start)
    | some _ => none
  | .read p seed =>
    match s.calls.get? p, s.file with
    | some .start, some bytes => some (s.put p (.ended (f.fromPem bytes)))
    | some .start, none => some (s.put p (.creating seed))
    | _, _ => none
  | .create p =>
    match s.calls.get? p, s.file with
    | some (.creating seed), none => some { s.put p (.writing seed 0) with file := some [] }
    | some (.creating _), some _ => some (s.put p (.ended (.error .io)))
    | _, _ => none
  | .write p more =>
    match s.calls.get? p with
    | some (.writing seed n) =>
      some { s.put p (.writing seed (n + more)) with
        file := some ((f.generate seed).take (n + more)) }
    | _ => none
  | .finish p =>
    match s.calls.get? p with
    | some (.writing seed n) =>
      if (f.generate seed).length ≤ n then
        some (s.put p (.ended (f.fromPem (f.generate seed))))
      else none
    | _ => none
  | .fail p =>
    match s.calls.get? p with
    | some .start | some (.creating _) | some (.writing _ _) => some (s.put p (.ended (.error .io)))
    | _ => none
  | .die p =>
    match s.calls.get? p with
    | some _ => some (s.put p .dead)
    | none => none

end IdentityRun

/-- The programs of a machine that has no identity yet. -/
def identityRuns (f : PemFormat Cert Key) : Lts (IdentityRun Cert Key) IdentityLabel where
  init s := s = {}
  step := IdentityRun.step f

/-! ## The file has one writer

The file is made by one of them, and only that one writes it. Who reads it whole has what that one
made. -/

namespace IdentityPc

/-- What the call writes, and how much of it is written. -/
def writes? : IdentityPc Cert Key → Option (Nat × Nat)
  | writing seed n => some (seed, n)
  | _ => none

/-- The identity the call came to. -/
def got? : IdentityPc Cert Key → Option (Identity Cert Key)
  | ended (.ok id) => some id
  | _ => none

end IdentityPc

variable {f : PemFormat Cert Key}

/-- As long as there is no file nobody writes and nobody has an identity; after that it is the
beginning of one text, which its only writer has written and everybody has the identity of. -/
structure IdentityInv (f : PemFormat Cert Key) (s : IdentityRun Cert Key) : Prop where
  absent : s.file = none → ∀ p pc, s.calls.get? p = some pc → pc.writes? = none ∧ pc.got? = none
  present : ∀ bytes, s.file = some bytes → ∃ seed n, bytes = (f.generate seed).take n
    ∧ ∀ p pc, s.calls.get? p = some pc → (∀ w, pc.writes? = some w → w = (seed, n))
      ∧ ∀ id, pc.got? = some id → f.fromPem (f.generate seed) = .ok id
  alone : ∀ p q pc pc', s.calls.get? p = some pc → s.calls.get? q = some pc' →
    pc.writes?.isSome → pc'.writes?.isSome → p = q

/-- A call goes on, does not write, and has an identity only if it read it. -/
theorem IdentityInv.put {s : IdentityRun Cert Key} (h : IdentityInv f s) {p : Nat}
    {pc : IdentityPc Cert Key} (hwrites : pc.writes? = none)
    (hgot : ∀ id, pc.got? = some id → ∃ bytes, s.file = some bytes ∧ f.fromPem bytes = .ok id) :
    IdentityInv f (s.put p pc) := by
  refine ⟨?_, ?_, ?_⟩
  · intro hfile q qc hq
    rw [IdentityRun.put, Dict.get?_put] at hq
    split at hq
    · cases hq
      refine ⟨hwrites, Option.eq_none_iff_forall_not_mem.mpr fun id hid => ?_⟩
      obtain ⟨bytes, hbytes, -⟩ := hgot id hid
      exact absurd hbytes (by rw [show s.file = none from hfile]; simp)
    · exact h.absent hfile q qc hq
  · intro bytes hfile
    obtain ⟨seed, n, hbytes, hcalls⟩ := h.present bytes hfile
    refine ⟨seed, n, hbytes, ?_⟩
    intro q qc hq
    rw [IdentityRun.put, Dict.get?_put] at hq
    split at hq
    · cases hq
      refine ⟨by simp [hwrites], fun id hid => ?_⟩
      obtain ⟨bytes', hbytes', hid⟩ := hgot id hid
      have hsame : bytes' = bytes := Option.some.inj (hbytes'.symm.trans hfile)
      rw [hsame, hbytes] at hid
      exact f.fromPem_take hid
    · exact hcalls q qc hq
  · intro q r qc rc hq hr hqw hrw
    rw [IdentityRun.put, Dict.get?_put] at hq hr
    split at hq
    · cases hq
      simp [hwrites] at hqw
    · split at hr
      · cases hr
        simp [hwrites] at hrw
      · exact h.alone q r qc rc hq hr hqw hrw

/-- The file is made by the call that will write it. -/
theorem IdentityInv.create {s : IdentityRun Cert Key} (h : IdentityInv f s) (hfile : s.file = none)
    (p seed : Nat) : IdentityInv f { s.put p (.writing seed 0) with file := some [] } := by
  have hothers : ∀ q qc, (s.put p (.writing seed 0)).calls.get? q = some qc →
      q = p ∧ qc = .writing seed 0 ∨ qc.writes? = none ∧ qc.got? = none := by
    intro q qc hq
    rw [IdentityRun.put, Dict.get?_put] at hq
    split at hq
    · next hqp => exact .inl ⟨hqp, (Option.some.inj hq).symm⟩
    · exact .inr (h.absent hfile q qc hq)
  refine ⟨nofun, ?_, ?_⟩
  · intro bytes hbytes
    cases hbytes
    refine ⟨seed, 0, by simp, ?_⟩
    intro q qc hq
    rcases hothers q qc hq with ⟨-, rfl⟩ | ⟨hw, hg⟩
    · exact ⟨fun w hw => (Option.some.inj hw).symm, nofun⟩
    · exact ⟨by simp [hw], by simp [hg]⟩
  · intro q r qc rc hq hr hqw hrw
    rcases hothers q qc hq with ⟨rfl, -⟩ | ⟨hw, -⟩
    · rcases hothers r rc hr with ⟨rfl, -⟩ | ⟨hw, -⟩
      · rfl
      · simp [hw] at hrw
    · simp [hw] at hqw

/-- The writer writes some more. -/
theorem IdentityInv.write {s : IdentityRun Cert Key} (h : IdentityInv f s) {p seed n : Nat}
    (hp : s.calls.get? p = some (.writing seed n)) (more : Nat) :
    IdentityInv f { s.put p (.writing seed (n + more)) with
      file := some ((f.generate seed).take (n + more)) } := by
  have halone : ∀ q qc, q ≠ p → s.calls.get? q = some qc → qc.writes? = none := by
    intro q qc hqp hq
    by_contra hw
    exact hqp (h.alone q p qc _ hq hp (Option.isSome_iff_ne_none.mpr hw) rfl)
  -- The file holds what this writer has written so far.
  obtain ⟨bytes, hfile⟩ : ∃ bytes, s.file = some bytes := by
    cases hfile : s.file with
    | none => exact absurd (h.absent hfile p _ hp).1 nofun
    | some bytes => exact ⟨bytes, rfl⟩
  obtain ⟨seed', n', -, hcalls⟩ := h.present bytes hfile
  have hmine : (seed, n) = (seed', n') := (hcalls p _ hp).1 _ rfl
  cases hmine
  refine ⟨nofun, ?_, ?_⟩
  · intro written hwritten
    cases hwritten
    refine ⟨seed, n + more, rfl, ?_⟩
    intro q qc hq
    rw [IdentityRun.put, Dict.get?_put] at hq
    split at hq
    · cases hq
      exact ⟨fun w hw => (Option.some.inj hw).symm, nofun⟩
    · next hqp => exact ⟨by simp [halone q qc hqp hq], (hcalls q qc hq).2⟩
  · intro q r qc rc hq hr hqw hrw
    rw [IdentityRun.put, Dict.get?_put] at hq hr
    split at hq
    · next hqp =>
      split at hr
      · next hrp => rw [hqp, hrp]
      · next hrp => simp [halone r rc hrp hr] at hrw
    · next hqp => simp [halone q qc hqp hq] at hqw

/-- **No step lets a program return an identity that is not in the file.** -/
theorem identityInv_step {s s' : IdentityRun Cert Key} {l : IdentityLabel} (h : IdentityInv f s)
    (hl : s.step f l = some s') : IdentityInv f s' := by
  cases l with
  | call p =>
    simp only [IdentityRun.step] at hl
    split at hl
    · cases hl
      exact h.put rfl nofun
    · cases hl
  | read p seed =>
    simp only [IdentityRun.step] at hl
    split at hl
    · next bytes _ hfile =>
      cases hl
      -- what is read is what the file holds, all of it or as much as is written
      refine h.put rfl fun id hid => ⟨bytes, hfile, ?_⟩
      generalize f.fromPem bytes = result at hid ⊢
      cases result with
      | ok got => rw [Option.some.inj hid]
      | error => cases hid
    · cases hl
      exact h.put rfl nofun
    · cases hl
  | create p =>
    simp only [IdentityRun.step] at hl
    split at hl
    · next seed _ hfile =>
      cases hl
      exact h.create hfile p seed
    · cases hl
      exact h.put rfl nofun
    · cases hl
  | write p more =>
    simp only [IdentityRun.step] at hl
    split at hl
    · next hp =>
      cases hl
      exact h.write hp more
    · cases hl
  | finish p =>
    simp only [IdentityRun.step] at hl
    split at hl
    · next seed n hp =>
      split at hl
      · next hlen =>
        cases hl
        -- who finishes has written all of its own bytes
        refine h.put rfl fun id hid => ?_
        cases hfile : s.file with
        | none => exact absurd (h.absent hfile p _ hp).1 nofun
        | some bytes =>
          -- and the file holds a beginning of these, so all of them
          obtain ⟨seed', n', hbytes, hcalls⟩ := h.present bytes hfile
          cases (hcalls p _ hp).1 _ rfl
          refine ⟨bytes, rfl, ?_⟩
          rw [hbytes, List.take_of_length_le hlen]
          generalize f.fromPem (f.generate seed) = result at hid ⊢
          cases result with
          | ok got => rw [Option.some.inj hid]
          | error => cases hid
      · cases hl
    · cases hl
  | fail p =>
    simp only [IdentityRun.step] at hl
    split at hl
    · cases hl
      exact h.put rfl nofun
    · cases hl
      exact h.put rfl nofun
    · cases hl
      exact h.put rfl nofun
    · cases hl
  | die p =>
    simp only [IdentityRun.step] at hl
    split at hl
    · cases hl
      exact h.put rfl nofun
    · cases hl

/-- The invariant holds in every state reached. -/
theorem identityInv_reach {s : IdentityRun Cert Key} (hs : (identityRuns f).Reachable s) :
    IdentityInv f s := by
  refine hs.invariant (P := IdentityInv f) ?_ fun _ _ _ _ h _ hl => ?_
  · intro s hinit
    obtain rfl : s = {} := hinit
    exact ⟨fun _ p pc hp => by simp at hp, nofun, fun p _ pc _ hp => by simp at hp⟩
  · exact identityInv_step h hl

/-- **One identity.** However the programs of a machine take their turns, fail and die, those that
get an identity get the same. -/
theorem one_identity {s : IdentityRun Cert Key} (hs : (identityRuns f).Reachable s) {p q : Nat}
    {a b : Identity Cert Key} (hp : s.calls.get? p = some (.ended (.ok a)))
    (hq : s.calls.get? q = some (.ended (.ok b))) : a = b := by
  have h := identityInv_reach hs
  cases hfile : s.file with
  | none => exact absurd (h.absent hfile p _ hp).2 nofun
  | some bytes =>
    obtain ⟨seed, n, -, hcalls⟩ := h.present bytes hfile
    have ha : f.fromPem (f.generate seed) = .ok a := (hcalls p _ hp).2 a rfl
    have hb : f.fromPem (f.generate seed) = .ok b := (hcalls q _ hq).2 b rfl
    exact Except.ok.inj (ha.symm.trans hb)

/-- Two bytes for an identity: the certificate, and the key. -/
def twoBytes : PemFormat UInt8 UInt8 where
  generate seed := [UInt8.ofNat seed, UInt8.ofNat (seed + 1)]
  certOf bytes := bytes[0]?
  keyOf bytes := bytes[1]?
  cert_early seed n := by
    rcases n with - | n
    · exact .inl rfl
    · exact .inr rfl
  key_early seed n := by
    rcases n with - | - | n
    · exact .inl rfl
    · exact .inl rfl
    · exact .inr rfl

/-- Three programs start at once: two find no file, and one of them makes it; the third reads what
is there by then. -/
def atOnce : List IdentityLabel :=
  [.call 0, .call 1, .call 2, .read 0 7, .read 1 9, .create 0, .create 1, .write 0 2, .read 2 11,
    .finish 0]

/-- Three programs at once: the first writes, the second fails, and the third reads what is there.
-/
theorem one_identity_atOnce : ∃ s : IdentityRun UInt8 UInt8,
    s.calls.get? 0 = some (.ended (.ok ⟨7, 8⟩)) ∧ s.calls.get? 1 = some (.ended (.error .io))
      ∧ ∀ b, s.calls.get? 2 = some (.ended (.ok b)) → (⟨7, 8⟩ : Identity UInt8 UInt8) = b := by
  have hinit : (identityRuns twoBytes).init {} := rfl
  obtain ⟨s, hrun⟩ : ∃ s, (identityRuns twoBytes).run {} atOnce = some s := ⟨_, rfl⟩
  have hreach : (identityRuns twoBytes).Reachable s := Lts.reachable_of_run hinit hrun
  have hfirst : s.calls.get? 0 = some (.ended (.ok ⟨7, 8⟩)) := by
    cases hrun
    rfl
  have hsecond : s.calls.get? 1 = some (.ended (.error .io)) := by
    cases hrun
    rfl
  exact ⟨s, hfirst, hsecond, fun b hb => one_identity hreach hfirst hb⟩

/-! ## What is left when nobody writes any more

The file stays as it is, so every later start reads the same bytes. -/

/-- The same programs, from here on. -/
def identityRunsFrom (f : PemFormat Cert Key) (s : IdentityRun Cert Key) :
    Lts (IdentityRun Cert Key) IdentityLabel where
  init t := t = s
  step := IdentityRun.step f

/-- What a call can have come to that is made when the file holds these bytes for good. -/
def IdentityPc.Reads (f : PemFormat Cert Key) (bytes : Bytes) (pc : IdentityPc Cert Key) : Prop :=
  pc = .start ∨ pc = .dead ∨ pc = .ended (f.fromPem bytes) ∨ pc = .ended (.error .io)

/-- The file holds these bytes, and nobody writes it. -/
structure SettledFile (f : PemFormat Cert Key) (bytes : Bytes) (s s' : IdentityRun Cert Key) :
    Prop where
  file : s'.file = some bytes
  quiet : ∀ p pc, s'.calls.get? p = some pc → pc.writes? = none
  later : ∀ p pc, s.calls.get? p = none → s'.calls.get? p = some pc → pc.Reads f bytes

/-- A step that writes nothing leaves a settled file settled. -/
theorem SettledFile.put {bytes : Bytes} {s s' : IdentityRun Cert Key} (h : SettledFile f bytes s s')
    {p : Nat} {pc : IdentityPc Cert Key} (hwrites : pc.writes? = none)
    (hreads : s.calls.get? p = none → pc.Reads f bytes) : SettledFile f bytes s (s'.put p pc) := by
  refine ⟨h.file, ?_, ?_⟩
  · intro q qc hq
    rw [IdentityRun.put, Dict.get?_put] at hq
    split at hq
    · cases hq
      exact hwrites
    · exact h.quiet q qc hq
  · intro q qc hnew hq
    rw [IdentityRun.put, Dict.get?_put] at hq
    split at hq
    · next hqp =>
      cases hq
      exact hreads (hqp ▸ hnew)
    · exact h.later q qc hnew hq

/-- Every step leaves a settled file settled, as nobody writes over a file that is there. -/
theorem settledFile_step {bytes : Bytes} {s s' s'' : IdentityRun Cert Key} {l : IdentityLabel}
    (h : SettledFile f bytes s s') (hl : s'.step f l = some s'') : SettledFile f bytes s s'' := by
  have hfile := h.file
  cases l with
  -- a call starts with nothing in hand
  | call p =>
    simp only [IdentityRun.step] at hl
    split at hl
    · cases hl
      exact h.put rfl fun _ => .inl rfl
    · cases hl
  | read p seed =>
    -- what is read is the whole file
    simp only [IdentityRun.step] at hl
    split at hl
    · next read _ hread =>
      cases hl
      cases hread.symm.trans hfile
      exact h.put rfl fun _ => .inr (.inr (.inl rfl))
    · next hnone =>
      cases hnone.symm.trans hfile
    · cases hl
  -- the file is there, so none is created, and nobody has one half written
  | create p =>
    simp only [IdentityRun.step] at hl
    split at hl
    · next hnone => cases hnone.symm.trans hfile
    · cases hl
      exact h.put rfl fun _ => .inr (.inr (.inr rfl))
    · cases hl
  | write p more =>
    simp only [IdentityRun.step] at hl
    split at hl
    · next hp => exact absurd (h.quiet p _ hp) nofun
    · cases hl
  | finish p =>
    simp only [IdentityRun.step] at hl
    split at hl
    · next hp => exact absurd (h.quiet p _ hp) nofun
    · cases hl
  -- a failure ends the call, and leaves the file alone
  | fail p =>
    simp only [IdentityRun.step] at hl
    split at hl
    · cases hl
      exact h.put rfl fun _ => .inr (.inr (.inr rfl))
    · cases hl
      exact h.put rfl fun _ => .inr (.inr (.inr rfl))
    · cases hl
      exact h.put rfl fun _ => .inr (.inr (.inr rfl))
    · cases hl
  | die p =>
    simp only [IdentityRun.step] at hl
    split at hl
    · cases hl
      exact h.put rfl fun _ => .inr (.inl rfl)
    · cases hl

/-- **What is left stays.** Once the file is there and nobody writes it, it is never written again,
and every call made from there on comes to what it says, unless the operating system says no: the
identity, or, where its writer failed or died too early, that it is not usable. -/
theorem identity_settles {bytes : Bytes} {s s' : IdentityRun Cert Key} (hfile : s.file = some bytes)
    (hquiet : ∀ p pc, s.calls.get? p = some pc → pc.writes? = none)
    (hs : (identityRunsFrom f s).Reachable s') : s'.file = some bytes
      ∧ ∀ p result, s.calls.get? p = none → s'.calls.get? p = some (.ended result) →
        result = f.fromPem bytes ∨ result = .error .io := by
  -- nobody writes the file any more, from `s` on
  have h : SettledFile f bytes s s' := by
    refine hs.invariant (P := SettledFile f bytes s) ?_ fun _ _ _ _ h _ hl => ?_
    · intro t hinit
      obtain rfl : t = s := hinit
      exact ⟨hfile, hquiet, fun p pc hnew hp => by rw [hnew] at hp; cases hp⟩
    · exact settledFile_step h hl
  refine ⟨h.file, ?_⟩
  intro p result hnew hp
  -- a call that was not there in `s` has ended, with what it read or a failure
  rcases h.later p _ hnew hp with hpc | hpc | hpc | hpc
  · cases hpc
  · cases hpc
  · cases hpc
    exact .inl rfl
  · cases hpc
    exact .inr rfl

/-- A program dies after the certificate. -/
def diedEarly : IdentityRun UInt8 UInt8 := { file := some [7], calls := Dict.put ∅ 0 .dead }

/-- A program that died early left half a file, and it stays. -/
theorem identity_settles_diedEarly : ∃ s' : IdentityRun UInt8 UInt8,
    s'.calls.get? 1 = some (.ended (.error (.invalid "no private key found")))
      ∧ s'.file = some [7] := by
  -- a later start reads what was left, and fails
  obtain ⟨s', hrun⟩ : ∃ s', (identityRunsFrom twoBytes diedEarly).run diedEarly
      [.call 1, .read 1 9] = some s' := ⟨_, rfl⟩
  have hinit : (identityRunsFrom twoBytes diedEarly).init diedEarly := rfl
  have hreach : (identityRunsFrom twoBytes diedEarly).Reachable s' :=
    Lts.reachable_of_run hinit hrun
  -- the one that died writes nothing any more
  have hquiet : ∀ p pc, diedEarly.calls.get? p = some pc → pc.writes? = none := by
    intro p pc hp
    rw [diedEarly, Dict.get?_put] at hp
    split at hp
    · cases hp
      rfl
    · cases hp
  have hkept := (identity_settles rfl hquiet hreach).1
  cases hrun
  exact ⟨_, rfl, hkept⟩

end GeserDesk
