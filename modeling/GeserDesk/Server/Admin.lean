import GeserDesk.Server.ConfigFile

/-!
# The calls of a front end, one at a time

`DeskState::approve`, `set_disabled`, `revoke` and `apply_layout` of
`geserdesk-server/src/admin.rs` as a caller sees them: each changes memory and the config file in
its own order, and undoes by hand what it did when the file cannot be written. Whether the file
can be read and replaced is the environment's.

* **`failed_call_unchanged_iff`**: a call that returns an error leaves everything as it was,
  except an approval of a request that is pending: the requests of its name are off the list.
* **`unsaved_approval_drops_request`**: such an approval.
-/

namespace GeserDesk

/-! ## Fingerprints as text -/

/-- `char::to_digit(16)`. -/
def hexDigit (c : Char) : Option Nat :=
  if '0' ≤ c ∧ c ≤ '9' then some (c.toNat - '0'.toNat)
  else if 'a' ≤ c ∧ c ≤ 'f' then some (c.toNat - 'a'.toNat + 10)
  else if 'A' ≤ c ∧ c ≤ 'F' then some (c.toNat - 'A'.toNat + 10)
  else none

/-- `str::trim`. -/
def trimText (l : List Char) : List Char :=
  ((l.dropWhile isWhitespace).reverse.dropWhile isWhitespace).reverse

def isAsciiWhitespace (c : Char) : Bool :=
  c = ' ' || c = '\t' || c = '\n' || c = '\r' || c.toNat = 0x0C

/-- `Fingerprint::from_str`: the printed form, with or without the `SHA256:` prefix, colons or
spaces, in any letter case. A character outside ASCII is no digit, so it never gets through. -/
def parseFingerprint (text : String) : Option Fingerprint :=
  let s := trimText text.toList
  let s := if (s.take 7).map Char.toLower = "sha256:".toList then s.drop 7 else s
  let hex := s.filter fun c => c ≠ ':' && !isAsciiWhitespace c
  if hex.length ≠ 64 then none
  else (hex.mapM hexDigit).map fun digits =>
    ⟨BitVec.ofNat 256 (digits.foldl (fun n d => n * 16 + d) 0)⟩

/-! ## The config file -/

/-- What is on the disk: a config, or text that is not one. -/
inductive OnDisk where
  | garbled (text : String)
  | parsed (f : ConfigFile)

/-- What the operating system lets a call do with the file. -/
structure DiskAccess where
  canRead : Bool := true
  canReplace : Bool := true

/-- Why a change was not saved. -/
inductive SaveError where
  | unreadable
  | notAConfig
  /-- The file has no tables to edit, or has the screen already. -/
  | doesNotApply
  | notReplaced
deriving DecidableEq

/-- Read the file, edit it, and replace it whole. -/
def OnDisk.save (disk : OnDisk) (access : DiskAccess) (edit : ConfigFile → Option ConfigFile) :
    Except SaveError OnDisk :=
  if !access.canRead then .error .unreadable
  else match disk with
    | .garbled _ => .error .notAConfig
    | .parsed f =>
      match edit f with
      | none => .error .doesNotApply
      | some new => if access.canReplace then .ok (.parsed new) else .error .notReplaced

/-! ## The calls

The calls of the administration, each with the file written first and memory second. -/

inductive AdminError where
  | unknownScreen (name : String)
  | outOfRange (name : String)
  | badSize (name : String)
  | overlap (a b : String)
  | tlsOff
  | badFingerprint
  | notPending
  | notTrusted
  | localScreen
  | save (e : SaveError)
deriving DecidableEq

def LayoutError.toAdmin : LayoutError → AdminError
  | .unknownScreen name => .unknownScreen name
  | .outOfRange name => .outOfRange name
  | .badSize name => .badSize name
  | .overlap a b => .overlap a b

structure AdminState where
  desk : DeskState
  hub : Hub ServerMsg := {}
  /-- The config file; `none` for a server that runs without one. -/
  file : Option OnDisk := none

namespace AdminState

def setTrust (s : AdminState) (t : Trust) : AdminState :=
  { s with desk := { s.desk with trust := some t } }

/-- Save a change, if there is a file to save it to. -/
def save (s : AdminState) (access : DiskAccess) (c : Change) : Except SaveError AdminState :=
  match s.file with
  | none => .ok s
  | some disk =>
    match disk.save access c.edit with
    | .error e => .error e
    | .ok disk => .ok { s with file := some disk }

/-- The end of `approve`: a new screen is on the desk from now on. -/
def joined (s : AdminState) (name : String) (listed : Bool) : AdminState :=
  if listed then s
  else { s with desk := { s.desk with layout := (s.desk.layout.addScreen name).1 },
                hub := (s.hub.addScreen name).1 }

/-- Trust a client that is waiting for approval. -/
def approve (s : AdminState) (access : DiskAccess) (name fingerprint : String) :
    AdminState × Except AdminError Unit :=
  match s.desk.trust with
  | none => (s, .error .tlsOff)
  | some trust =>
    match parseFingerprint fingerprint with
    | none => (s, .error .badFingerprint)
    | some fp =>
      let listed := s.desk.layout.hasScreen name
      if !listed && !validScreenName name then (s, .error (.unknownScreen name))
      else
        let previous := trust.trusted.get? name
        match trust.approve name fp with
        | (_, false) => (s, .error .notPending)
        | (approved, true) =>
          match (s.setTrust approved).save access (.trust name fp listed previous) with
          -- undo, so what is trusted in memory matches what is on disk
          | .error e => (s.setTrust (approved.restore name previous), .error (.save e))
          | .ok s => (s.joined name listed, .ok ())

/-- Turn a client's screen off or on, and remember it in the config. -/
def setDisabled (s : AdminState) (access : DiskAccess) (name : String) (disabled : Bool) :
    AdminState × Except AdminError Unit :=
  if name = s.desk.local_ then (s, .error .localScreen)
  else if !s.desk.layout.screens.any (· == name) then (s, .error (.unknownScreen name))
  else
    match s.save access (.disable name disabled) with
    | .error e => (s, .error (.save e))
    | .ok s => ({ s with hub := s.hub.setDisabled name disabled }, .ok ())

/-- Stop trusting a screen's certificate. -/
def revoke (s : AdminState) (access : DiskAccess) (name : String) :
    AdminState × Except AdminError Unit :=
  match s.desk.trust with
  | none => (s, .error .tlsOff)
  | some trust =>
    match trust.revoke name with
    | (_, none) => (s, .error .notTrusted)
    | (revoked, some old) =>
      match (s.setTrust revoked).save access (.untrust name old) with
      | .error e => (s.setTrust (revoked.restore name (some old)), .error (.save e))
      | .ok s => ({ s with hub := (s.hub.disconnect name .reconfigured).1 }, .ok ())

/-- Check a layout, write it to the config file, and apply it to the running router. -/
def applyLayout (s : AdminState) (access : DiskAccess) (requested : Dict String Point)
    (resized : Dict String (Option Size)) : AdminState × Except AdminError Bool :=
  -- looking at the desk remembers the monitors of who is connected
  let looked := { s with desk := (s.desk.screens s.hub).2 }
  match s.desk.validate s.hub requested resized with
  | .error e => (looked, .error e.toAdmin)
  | .ok (next, sizes) =>
    match looked.save access (.layout next sizes) with
    | .error e => (looked, .error (.save e))
    | .ok saved =>
      ({ saved with desk := { saved.desk with positions := next, sizes := sizes },
                    hub := (saved.hub.emit (.sizes sizes)).emit (.positions next) },
        .ok s.file.isSome)

end AdminState

/-- A call of a front end. -/
inductive AdminCall where
  | approve (name fingerprint : String)
  | revoke (name : String)
  | setDisabled (name : String) (disabled : Bool)
  | applyLayout (requested : Dict String Point) (resized : Dict String (Option Size))

/-- The state after a call, and its error. -/
def AdminState.call (s : AdminState) (access : DiskAccess) :
    AdminCall → AdminState × Option AdminError
  | .approve name fingerprint =>
    let r := s.approve access name fingerprint
    (r.1, match r.2 with | .error e => some e | .ok _ => none)
  | .revoke name =>
    let r := s.revoke access name
    (r.1, match r.2 with | .error e => some e | .ok _ => none)
  | .setDisabled name disabled =>
    let r := s.setDisabled access name disabled
    (r.1, match r.2 with | .error e => some e | .ok _ => none)
  | .applyLayout requested resized =>
    let r := s.applyLayout access requested resized
    (r.1, match r.2 with | .error e => some e | .ok _ => none)

/-! ## What a failed call leaves

After a failed call trust, screens and layout are what they were. The exception is a request that
is approved, which is taken off the list before the save fails. -/

namespace AdminState

def trusted (s : AdminState) (name : String) : Option Fingerprint :=
  s.desk.trust.bind (·.trusted.get? name)

def pending (s : AdminState) : List Trust.Pending := (s.desk.trust.map Trust.pending).getD []

/-- Nothing a call could change has changed. The hub is its added and disabled screens, its
registrations and everything sent on its channels. -/
structure Unchanged (s s' : AdminState) : Prop where
  trusted : ∀ name, s'.trusted name = s.trusted name
  pending : s'.pending = s.pending
  layout : s'.desk.layout = s.desk.layout
  positions : s'.desk.positions = s.desk.positions
  sizes : s'.desk.sizes = s.desk.sizes
  hub : s'.hub = s.hub
  file : s'.file = s.file

/-- Nothing changed is unchanged. -/
theorem Unchanged.refl (s : AdminState) : Unchanged s s :=
  ⟨fun _ => rfl, rfl, rfl, rfl, rfl, rfl, rfl⟩

/-- The call is an approval that gets as far as a request that is pending: TLS is on, the
fingerprint is one, the name is listed or may join, and the request is on the list. -/
def ApprovesPending (s : AdminState) : AdminCall → Prop
  | .approve name fingerprint => ∃ trust fp, s.desk.trust = some trust
      ∧ parseFingerprint fingerprint = some fp
      ∧ (s.desk.layout.hasScreen name = true ∨ validScreenName name = true)
      ∧ trust.pending.any (Trust.Pending.is name fp) = true
  | _ => False

/-- What is trusted is what the trust that was set says. -/
theorem setTrust_trusted (s : AdminState) (t : Trust) (name : String) :
    (s.setTrust t).trusted name = t.trusted.get? name := rfl

/-- Where there is a trust, what is trusted is what it says. -/
theorem trusted_of {s : AdminState} {t : Trust} (h : s.desk.trust = some t) (name : String) :
    s.trusted name = t.trusted.get? name := by rw [trusted, h]; rfl

/-- Where there is a trust, what waits is what it lists. -/
theorem pending_of {s : AdminState} {t : Trust} (h : s.desk.trust = some t) :
    s.pending = t.pending := by rw [pending, h]; rfl

/-- A failed approval has changed something exactly when its request was pending. -/
theorem approve_error_iff {s : AdminState} {access : DiskAccess} {name fingerprint : String}
    {e : AdminError} (h : (s.approve access name fingerprint).2 = .error e) :
    Unchanged s (s.approve access name fingerprint).1
      ↔ ¬s.ApprovesPending (.approve name fingerprint) := by
  unfold approve at h ⊢
  cases ht : s.desk.trust with
  | none =>
    refine iff_of_true (.refl s) ?_
    rintro ⟨trust, fp, htrust, -⟩
    rw [ht] at htrust
    cases htrust
  | some trust =>
    rw [ht] at h
    cases hf : parseFingerprint fingerprint with
    | none =>
      refine iff_of_true (.refl s) ?_
      rintro ⟨trust', fp, -, hfp, -⟩
      rw [hf] at hfp
      cases hfp
    | some fp =>
      rw [hf] at h
      simp only at h ⊢
      by_cases hname : (!s.desk.layout.hasScreen name && !validScreenName name) = true
      · rw [if_pos hname]
        refine iff_of_true (.refl s) ?_
        rintro ⟨trust', fp', -, -, hok, -⟩
        rw [Bool.and_eq_true, Bool.not_eq_true', Bool.not_eq_true'] at hname
        rw [hname.1, hname.2] at hok
        rcases hok with h | h <;> cases h
      · rw [if_neg hname] at h ⊢
        have hok : s.desk.layout.hasScreen name = true ∨ validScreenName name = true := by
          cases hl : s.desk.layout.hasScreen name with
          | true => exact .inl rfl
          | false => exact .inr (by simpa [hl] using hname)
        by_cases hany : trust.pending.any (Trust.Pending.is name fp) = true
        · have happrove : trust.approve name fp = (⟨trust.trusted.put name fp,
              trust.pending.filter (·.name != name)⟩, true) := if_pos hany
          rw [happrove] at h ⊢
          simp only at h ⊢
          split at h
          · -- the file was not written: the requests of the name stay off the list
            refine iff_of_false (fun hu => ?_) (fun hn => hn ⟨trust, fp, ht, hf, hok, hany⟩)
            have hpending := hu.pending
            rw [pending_of ht] at hpending
            obtain ⟨p, hp, his⟩ := List.any_eq_true.mp hany
            have hpname : p.name = name := by
              rw [Trust.Pending.is, Bool.and_eq_true, beq_iff_eq] at his
              exact his.1
            have hrest : ∀ t : Trust, ∀ prev, (t.restore name prev).pending = t.pending := by
              intro t prev
              cases prev <;> rfl
            rw [show (s.setTrust _).pending = (Trust.restore _ name _).pending from rfl,
              hrest] at hpending
            have hmem := hpending ▸ hp
            exact absurd hpname (bne_iff_ne.mp (List.mem_filter.mp hmem).2)
          · cases h
        · have happrove : trust.approve name fp = (trust, false) := if_neg hany
          rw [happrove]
          refine iff_of_true (.refl s) ?_
          rintro ⟨trust', fp', htrust, hfp, -, hp⟩
          rw [ht] at htrust
          rw [hf] at hfp
          cases htrust
          cases hfp
          exact hany hp

/-- A call that turns a screen off or on and fails changes nothing. -/
theorem setDisabled_error {s : AdminState} {access : DiskAccess} {name : String} {disabled : Bool}
    {e : AdminError} (h : (s.setDisabled access name disabled).2 = .error e) :
    (s.setDisabled access name disabled).1 = s := by
  unfold setDisabled at h ⊢
  split
  · rfl
  · split
    · rfl
    · rw [if_neg ‹_›, if_neg ‹_›] at h
      split
      · rfl
      · next heq => rw [heq] at h; cases h

/-- A revocation that fails leaves everything `Unchanged` names. -/
theorem revoke_error {s : AdminState} {access : DiskAccess} {name : String} {e : AdminError}
    (h : (s.revoke access name).2 = .error e) : Unchanged s (s.revoke access name).1 := by
  unfold revoke at h ⊢
  cases ht : s.desk.trust with
  | none => exact .refl s
  | some trust =>
    rw [ht] at h
    simp only [Trust.revoke] at h ⊢
    cases hold : trust.trusted.get? name with
    | none => exact .refl s
    | some old =>
      rw [hold] at h
      simp only at h ⊢
      split
      · refine ⟨fun n => ?_, ?_, rfl, rfl, rfl, rfl, rfl⟩
        · rw [setTrust_trusted, Trust.restore_get?, trusted_of ht]
          split
          · next hn => rw [hn, hold]
          · next hn => exact (Dict.get?_drop _ _ _).trans (if_neg hn)
        · exact (pending_of ht).symm
      · next heq => rw [heq] at h; cases h

/-- A layout that fails leaves everything `Unchanged` names. -/
theorem applyLayout_error {s : AdminState} {access : DiskAccess} {requested : Dict String Point}
    {resized : Dict String (Option Size)} {e : AdminError}
    (h : (s.applyLayout access requested resized).2 = .error e) :
    Unchanged s (s.applyLayout access requested resized).1 := by
  have heq := (s.desk.screens_learned s.hub).eq
  have hlooked : Unchanged s { s with desk := (s.desk.screens s.hub).2 } := by
    rw [heq]
    exact ⟨fun _ => rfl, rfl, rfl, rfl, rfl, rfl, rfl⟩
  unfold applyLayout at h ⊢
  split
  · exact hlooked
  · next hv =>
    rw [hv] at h
    simp only at h ⊢
    split
    · exact hlooked
    · next hs => rw [hs] at h; cases h

/-- **A call that fails changes nothing, but for an approval that could not be saved.** -/
theorem failed_call_unchanged_iff {s s' : AdminState} {access : DiskAccess} {c : AdminCall}
    {e : AdminError} (h : s.call access c = (s', some e)) :
    Unchanged s s' ↔ ¬s.ApprovesPending c := by
  cases c with
  -- only an approval touches the requests before it saves
  | approve name fingerprint =>
    simp only [call, Prod.mk.injEq] at h
    obtain ⟨rfl, he⟩ := h
    split at he
    · next e' heq => exact approve_error_iff heq
    · cases he
  | revoke name =>
    simp only [call, Prod.mk.injEq] at h
    obtain ⟨rfl, he⟩ := h
    split at he
    · next e' heq => exact iff_of_true (revoke_error heq) id
    · cases he
  | setDisabled name disabled =>
    simp only [call, Prod.mk.injEq] at h
    obtain ⟨rfl, he⟩ := h
    split at he
    · next e' heq => exact iff_of_true (by rw [setDisabled_error heq]; exact .refl s) id
    · cases he
  | applyLayout requested resized =>
    simp only [call, Prod.mk.injEq] at h
    obtain ⟨rfl, he⟩ := h
    split at he
    · next e' heq => exact iff_of_true (applyLayout_error heq) id
    · cases he

/-! ## Two calls that cannot be saved -/

/-- A server that trusts `laptop` and has one request waiting, from `tablet`. -/
def guarded : AdminState where
  desk := { local_ := "desk", localMonitors := [⟨0, 0, 1920, 1080⟩],
            layout := { screens := ["desk", "laptop"], links := ∅ },
            trust := some { trusted := (∅ : Dict String Fingerprint).put "laptop" ⟨1⟩,
                            pending := [⟨"tablet", ⟨0⟩, "192.0.2.7:4000", none⟩] } }
  file := some (.parsed { screens := [{ name := "desk" },
                                      { name := "laptop", fingerprint := some ⟨1⟩ }] })

/-- A revocation that cannot be saved changes nothing. -/
theorem unsaved_revocation_unchanged :
    ∃ s', guarded.call { canReplace := false } (.revoke "laptop")
        = (s', some (.save .notReplaced)) ∧ Unchanged guarded s' := by
  have herror : (guarded.call { canReplace := false } (.revoke "laptop")).2
      = some (.save .notReplaced) := by decide +kernel
  have hcall : guarded.call { canReplace := false } (.revoke "laptop")
      = ((guarded.call { canReplace := false } (.revoke "laptop")).1,
          some (.save .notReplaced)) := by
    rw [← herror]
  exact ⟨_, hcall, (failed_call_unchanged_iff hcall).mpr fun h => h⟩

/-- The fingerprint `tablet` presents, as the person confirms it. -/
def tabletFingerprint : String :=
  "0000000000000000000000000000000000000000000000000000000000000000"

/-- An approval that cannot be saved takes the request off the list, and the person is told of
the error only. -/
theorem unsaved_approval_drops_request :
    ∃ s', guarded.call { canReplace := false } (.approve "tablet" tabletFingerprint)
        = (s', some (.save .notReplaced))
      ∧ guarded.pending.length = 1 ∧ s'.pending = [] ∧ ¬Unchanged guarded s' := by
  have herror : (guarded.call { canReplace := false } (.approve "tablet" tabletFingerprint)).2
      = some (.save .notReplaced) := by decide +kernel
  have hpending : (guarded.call { canReplace := false }
      (.approve "tablet" tabletFingerprint)).1.pending = [] := by decide +kernel
  have hcall : guarded.call { canReplace := false } (.approve "tablet" tabletFingerprint)
      = ((guarded.call { canReplace := false } (.approve "tablet" tabletFingerprint)).1,
          some (.save .notReplaced)) := by
    rw [← herror]
  refine ⟨_, hcall, rfl, hpending, fun hu => ?_⟩
  have hsame := hu.pending
  rw [hpending] at hsame
  cases hsame

end AdminState

end GeserDesk
