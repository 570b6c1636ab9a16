import GeserDesk.Client.FirstUse
import GeserDesk.Lib.Toml
import GeserDesk.Server.FingerprintText

/-!
# The file of known servers

`KnownServers` in `geserdesk-client/src/trust_store.rs`, with the file it keeps the pins in. Every
fault of reading is an empty table, and a pin is saved by writing the whole document again.

A document stands for its text: what the TOML library prints, it parses. The file system decides
how far a write gets, and what one that fails half way leaves behind is anything at all.

* **`remember_pins`**: a pin is saved, and no other one touched, exactly if the file can be read and
  its `servers` is a table or not there, and a write that stops half way leaves the pins as they
  were.
* `servers_remember`: of all that only the pins and the room for one show on a connection, so the
  file is what `KnownServers` makes of it there.
-/

namespace GeserDesk

/-- What is at the path of `known_servers.toml`. -/
inductive KnownFile where
  | missing
  /-- A file this program may write, but not read. -/
  | unreadable
  /-- No text, or no TOML. -/
  | damaged
  | document (doc : Toml.Table)

/-- How far writing the file gets. -/
inductive Written where
  /-- Its folder cannot be made. -/
  | noFolder
  | notOpened
  /-- The file was emptied, and not all of the text was written. -/
  | stopped (left : KnownFile)
  | all

namespace KnownFile

def read : KnownFile → Toml.Table
  | .document doc => doc
  | .missing | .unreadable | .damaged => []

/-- The text pinned for `server` in a document. -/
def pinOf (doc : Toml.Table) (server : String) : Option String := do
  let servers ← doc.get? "servers"
  let t ← servers.asTable
  let pin ← t.get? server
  pin.asString

/-- The fingerprint pinned for `server`. A damaged file or entry pins nothing. -/
def get (f : KnownFile) (server : String) : Option Fingerprint :=
  (pinOf f.read server).bind parseFingerprint

/-- The document with `fingerprint` pinned for `server`. One whose `servers` is no table is left
as it is. -/
def withPin (doc : Toml.Table) (server : String) (fingerprint : Fingerprint) : Toml.Table :=
  let servers := (doc.get? "servers").getD (.table [])
  match servers.asTable with
  | some t =>
    doc.insert "servers" (.table (Toml.Table.insert t server (.string fingerprint.toText)))
  | none => doc

/-- Writing text to a file does not change who may read it. -/
def write (f : KnownFile) (doc : Toml.Table) : KnownFile :=
  match f with
  | .unreadable => .unreadable
  | .missing | .damaged | .document _ => .document doc

/-- Pin `fingerprint` for `server`: what is then in the file, and whether `Ok` is returned. -/
def remember (f : KnownFile) (server : String) (fingerprint : Fingerprint) :
    Written → KnownFile × Bool
  | .noFolder | .notOpened => (f, false)
  | .stopped left => (left, false)
  | .all => (f.write (withPin f.read server fingerprint), true)

/-! ## What is pinned

What the file answers after a write is what was pinned, or the write has changed nothing. -/

/-- `servers` is a table, or not there. -/
def HasRoom (doc : Toml.Table) : Prop :=
  ∀ servers, doc.get? "servers" = some servers → servers.asTable ≠ none

/-- In a document with room the pin is read back, and every other one as before. -/
theorem pinOf_withPin {doc : Toml.Table} (hroom : HasRoom doc) (server other : String)
    (fingerprint : Fingerprint) :
    pinOf (withPin doc server fingerprint) other
      = if other = server then some fingerprint.toText else pinOf doc other := by
  unfold withPin pinOf
  cases hservers : doc.get? "servers" with
  | none =>
    by_cases h : other = server <;> simp [h]
  | some servers =>
    obtain ⟨t, ht⟩ := Option.ne_none_iff_exists'.mp (hroom servers hservers)
    by_cases h : other = server <;> simp [ht, h]

/-- A document without room is left as it was, and pins nothing. -/
theorem withPin_of_no_room {doc : Toml.Table} (h : ¬HasRoom doc) (server : String)
    (fingerprint : Fingerprint) :
    withPin doc server fingerprint = doc ∧ ∀ other, pinOf doc other = none := by
  unfold HasRoom at h
  push Not at h
  obtain ⟨servers, hservers, hnone⟩ := h
  simp [withPin, pinOf, hservers, hnone]

/-- A pin leaves room for the next. -/
theorem hasRoom_withPin {doc : Toml.Table} (h : HasRoom doc) (server : String)
    (fingerprint : Fingerprint) : HasRoom (withPin doc server fingerprint) := by
  intro servers hservers
  unfold withPin at hservers
  dsimp only at hservers
  split at hservers
  · rw [Toml.Table.get?_insert, if_pos rfl] at hservers
    cases hservers
    nofun
  · exact h servers hservers

/-- What the answer of `remember` promises: the pin and no other change, or no change. -/
def Promised (f : KnownFile) (server : String) (fingerprint : Fingerprint)
    (result : KnownFile × Bool) : Prop :=
  (result.2 = true → result.1.get server = some fingerprint
    ∧ ∀ other, other ≠ server → result.1.get other = f.get other)
  ∧ (result.2 = false → ∀ other, result.1.get other = f.get other)

/-- A document pins the same as another: the same texts, but for those that are no fingerprint. -/
def SamePins (doc doc' : Toml.Table) : Prop :=
  ∀ server fingerprint, (∃ text, pinOf doc server = some text ∧ parseFingerprint text = some fingerprint)
    ↔ ∃ text, pinOf doc' server = some text ∧ parseFingerprint text = some fingerprint

/-- A pin can be saved. What a write that stops half way leaves is up to the file system, so all
there is to ask of it is that the text left, whatever became of the rest of it, still has the pins. -/
def Keeps (f : KnownFile) : Written → Prop
  | .noFolder | .notOpened => True
  | .stopped left => SamePins left.read f.read
  | .all => f ≠ .unreadable ∧ HasRoom f.read

/-- Two documents pin the same texts just if they pin the same fingerprints. -/
theorem samePins_iff {f f' : KnownFile} :
    SamePins f.read f'.read ↔ ∀ server, f.get server = f'.get server := by
  have hget : ∀ (f : KnownFile) (server : String) (fingerprint : Fingerprint),
      f.get server = some fingerprint
        ↔ ∃ text, pinOf f.read server = some text ∧ parseFingerprint text = some fingerprint :=
    fun f server fingerprint => Option.bind_eq_some_iff
  constructor
  · intro h server
    exact Option.ext fun fingerprint =>
      (hget f server fingerprint).trans ((h server fingerprint).trans (hget f' server fingerprint).symm)
  · intro h server fingerprint
    rw [← hget, ← hget, h server]

/-- What was written is read, by a program that may read it. -/
theorem get_write {f : KnownFile} (h : f ≠ .unreadable) (doc : Toml.Table) (server : String) :
    (f.write doc).get server = (pinOf doc server).bind parseFingerprint := by
  cases f with
  | unreadable => exact absurd rfl h
  | _ => rfl

/-- **A server is pinned, and only that server**, exactly if the file keeps its pins. -/
theorem remember_pins (f : KnownFile) (server : String) (fingerprint : Fingerprint) (w : Written) :
    f.Promised server fingerprint (f.remember server fingerprint w) ↔ f.Keeps w := by
  -- by how far the write came
  cases w with
  | noFolder => exact ⟨fun _ => trivial, fun _ => ⟨nofun, fun _ _ => rfl⟩⟩
  | notOpened => exact ⟨fun _ => trivial, fun _ => ⟨nofun, fun _ _ => rfl⟩⟩
  | stopped left =>
    exact ⟨fun h => samePins_iff.mpr (h.2 rfl), fun h => ⟨nofun, fun _ => samePins_iff.mp h⟩⟩
  | all =>
    constructor
    · intro h
      have hpinned := (h.1 rfl).1
      refine ⟨?_, ?_⟩
      -- a file that cannot be read takes no pin, and neither does one without room
      · rintro rfl
        cases hpinned
      · by_contra hroom
        obtain ⟨hsame, hnone⟩ := withPin_of_no_room hroom server fingerprint
        have hreadable : f ≠ .unreadable := by
          rintro rfl
          cases hpinned
        simp only [remember] at hpinned
        rw [get_write hreadable, hsame, hnone server] at hpinned
        cases hpinned
    -- otherwise it is there, and the other pins are as they were
    · rintro ⟨hreadable, hroom⟩
      refine ⟨fun _ => ⟨?_, fun other hother => ?_⟩, nofun⟩
      · simp only [remember]
        rw [get_write hreadable, pinOf_withPin hroom, if_pos rfl, Option.bind_some,
          Fingerprint.parseFingerprint_toText]
      · simp only [remember]
        rw [get_write hreadable, pinOf_withPin hroom, if_neg hother]
        rfl

/-- A `servers` that is no table takes no pin, and `Ok` is returned all the same. -/
theorem pin_not_stored : ¬ ∀ (f : KnownFile) (server : String) (fingerprint : Fingerprint)
    (w : Written), f.Promised server fingerprint (f.remember server fingerprint w) := by
  intro hall
  have h := hall (.document [("servers", .string "none yet")]) "10.0.0.1:24810" ⟨0⟩ .all
  cases (h.1 rfl).1

/-! ## What a connection sees of the file

On a connection the file is no more than the pins it gives and whether it takes one. -/

/-- The file gives these pins, and has room for one just if they have. -/
structure Tells (f : KnownFile) (k : KnownServers) : Prop where
  pins : ∀ server, f.get server = k.get server
  room : HasRoom f.read ↔ k ≠ .noTable

/-- The pins of a table, where what is no fingerprint pins nothing. -/
def pinsOf : Toml.Table → Dict String (Option Fingerprint)
  | [] => ∅
  | (server, pin) :: t => (pinsOf t).put server (pin.asString.bind parseFingerprint)

/-- What the file comes to on a connection. -/
def servers (f : KnownFile) : KnownServers :=
  match f.read.get? "servers" with
  | none => .damaged
  | some servers =>
    match servers.asTable with
    | some t => .table (pinsOf t)
    | none => .noTable

/-- The pins of a table are those of its entries. -/
theorem get?_pinsOf (t : Toml.Table) (server : String) :
    ((pinsOf t).get? server).join = (t.get? server).bind fun pin => pin.asString.bind parseFingerprint := by
  induction t with
  | nil => rfl
  | cons e t ih =>
    obtain ⟨name, pin⟩ := e
    by_cases h : server = name <;> simp_all [pinsOf, Toml.Table.get?, eq_comm]

/-- What `servers` makes of a file tells what the file pins. -/
theorem tells_servers (f : KnownFile) : f.Tells f.servers := by
  unfold servers
  cases hservers : f.read.get? "servers" with
  | none =>
    refine ⟨fun server => ?_, iff_of_true (fun _ h => ?_) fun h => (by cases h)⟩
    · simp [get, pinOf, hservers, KnownServers.get]
    · rw [hservers] at h
      cases h
  | some servers =>
    dsimp only
    cases htable : servers.asTable with
    | none =>
      refine ⟨fun server => ?_, iff_of_false (fun h => h servers hservers htable) fun h => h rfl⟩
      simp [get, pinOf, hservers, htable, KnownServers.get]
    | some t =>
      refine ⟨fun server => ?_, iff_of_true (fun _ h => ?_) fun h => (by cases h)⟩
      · simp only [get, pinOf, hservers, htable, KnownServers.get, get?_pinsOf, Option.bind_eq_bind,
          Option.bind_some, Option.bind_assoc]
      · rw [hservers] at h
        cases h
        rw [htable]
        exact Option.some_ne_none t

/-- **A pin saved in the file is one remembered**: whatever a connection is shown of the file, saving a
pin shows it what remembering the pin does. -/
theorem Tells.remember {f : KnownFile} {k : KnownServers} (h : f.Tells k) (hreadable : f ≠ .unreadable)
    (server : String) (fingerprint : Fingerprint) :
    (f.remember server fingerprint .all).1.Tells (k.remember server fingerprint) := by
  have hread : (f.write (withPin f.read server fingerprint)).read = withPin f.read server fingerprint := by
    cases f with
    | unreadable => exact absurd rfl hreadable
    | _ => rfl
  by_cases hk : k = .noTable
  · -- there is no room: the document is written as it was
    have hroom : ¬HasRoom f.read := fun hroom => h.room.mp hroom hk
    obtain ⟨hsame, hnone⟩ := withPin_of_no_room hroom server fingerprint
    subst hk
    refine ⟨fun other => ?_, iff_of_false ?_ fun hne => hne rfl⟩
    · simp only [KnownFile.remember]
      rw [get_write hreadable, hsame, hnone other]
      rfl
    · simp only [KnownFile.remember]
      rw [hread, hsame]
      exact hroom
  · have hroom := h.room.mpr hk
    refine ⟨fun other => ?_, iff_of_true ?_ (KnownServers.remember_ne_noTable hk server fingerprint)⟩
    · simp only [KnownFile.remember]
      rw [get_write hreadable, pinOf_withPin hroom, KnownServers.get_remember hk]
      split
      · rw [Option.bind_some, Fingerprint.parseFingerprint_toText]
      · exact h.pins other
    · simp only [KnownFile.remember]
      rw [hread]
      exact hasRoom_withPin hroom server fingerprint

/-- A write that goes through is, to a connection, a pin remembered. -/
theorem servers_remember {f : KnownFile} (h : f ≠ .unreadable) (server : String)
    (fingerprint : Fingerprint) (other : String) :
    (f.remember server fingerprint .all).1.servers.get other
      = (f.servers.remember server fingerprint).get other :=
  ((tells_servers _).pins other).symm.trans
    (((tells_servers f).remember h server fingerprint).pins other)

end KnownFile

end GeserDesk
