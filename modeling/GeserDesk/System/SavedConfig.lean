import GeserDesk.System.ConfigRuns

/-!
# The saved configuration

* **`saved_config_follows`**: in a run whose calls keep out of each other's sections (`Apart`), once
  all calls have returned the file says what is in memory, and both what was saved.
-/

namespace GeserDesk

namespace ConfigRun

/-! ## What is on record -/

/-- **A change is on record if and only if its call returns `ok`**: one that has saved does not
fail any more, one that has not returns an error, and the record changes when a call saves. -/
theorem advance_saves {s t : ConfigRun} {ok : Bool} {pc pc' : AdminPc}
    (h : s.advance ok pc = some (t, pc')) :
    (pc.hasSaved = pc'.hasSaved ∧ t.accepted = s.accepted)
      ∨ ∃ c new, pc = .toReplace c new ∧ pc'.hasSaved = true ∧ t.accepted = c.apply s.accepted := by
  -- a call that failed has saved nothing
  have hfailed : ∀ c, (failed c).hasSaved = false := fun c => by cases c <;> rfl
  cases pc with
  | prior name fp listed => cases h; exact .inl ⟨rfl, rfl⟩
  | trusting name fp listed previous =>
    simp only [advance] at h
    split at h
    · cases h
    split at h
    · cases h; exact .inl ⟨rfl, rfl⟩
    · cases h; exact .inl ⟨rfl, rfl⟩
  | toRead c =>
    simp only [advance] at h
    split at h
    · cases h; exact .inl ⟨rfl, rfl⟩
    · cases h; exact .inl ⟨(hfailed c).symm, rfl⟩
  -- only the replacing writes, and it writes the whole change
  | toReplace c new =>
    simp only [advance] at h
    split at h
    · cases h
      have hdone : (done c).hasSaved = true := by
        unfold done
        split <;> rfl
      exact .inr ⟨c, _, rfl, hdone, rfl⟩
    · cases h; exact .inl ⟨(hfailed c).symm, rfl⟩
  -- taking back a pin, in memory only
  | undo c =>
    cases htrust : s.desk.trust with
    | none => cases c <;> simp [advance, htrust] at h
    | some t =>
      cases c with
      | trust name fp listed previous =>
        simp only [advance, htrust, Option.map_some] at h
        cases h
        exact .inl ⟨rfl, rfl⟩
      | untrust name old =>
        simp only [advance, htrust, Option.map_some] at h
        cases h
        exact .inl ⟨rfl, rfl⟩
      | _ => cases h
  | saved c =>
    cases c with
    | tuning t => cases h
    | _ => cases h; exact .inl ⟨rfl, rfl⟩
  | sizing positions sizes => cases h; exact .inl ⟨rfl, rfl⟩
  | telling positions sizes => cases h; exact .inl ⟨rfl, rfl⟩
  | adding name => cases h; exact .inl ⟨rfl, rfl⟩
  | returned ok => cases h

/-! ## What is so while a call is in a section

A call in a section has changed one of file, memory and record, and is about to change the others.
-/

/-- Memory and record agree about `r`. -/
def Even (s : ConfigRun) : Section → Prop
  | .file => True
  | .trust name => s.trusted name = s.accepted.trusted name
  | .disabled name => decide (name ∈ s.hub.disabled) = s.accepted.disabled name
  | .layout => s.desk.positions.get? = s.accepted.positions ∧ s.desk.sizes.get? = s.accepted.sizes

/-- Nothing about `r` has changed. -/
def Same (s s' : ConfigRun) : Section → Prop
  | .file => s'.file = s.file
  | .trust name => s'.trusted name = s.trusted name
      ∧ s'.accepted.trusted name = s.accepted.trusted name
  | .disabled name => (name ∈ s'.hub.disabled ↔ name ∈ s.hub.disabled)
      ∧ s'.accepted.disabled name = s.accepted.disabled name
  | .layout => (s'.desk.positions = s.desk.positions ∧ s'.desk.sizes = s.desk.sizes)
      ∧ s'.accepted.positions = s.accepted.positions ∧ s'.accepted.sizes = s.accepted.sizes

/-- What a change that is not saved yet rests on. -/
def Waits (s : ConfigRun) : Change → Prop
  | .trust name fp listed previous => (listed = true → s.desk.layout.hasScreen name = true)
      ∧ s.trusted name = some fp ∧ s.accepted.trusted name = previous
  | .untrust name old => s.trusted name = none ∧ s.accepted.trusted name = some old
  | .disable name _ => s.desk.layout.hasScreen name = true
  | .layout positions sizes => s.Even .layout
      ∧ (∀ n, positions.get? n ≠ none → s.desk.layout.hasScreen n = true)
      ∧ (∀ n z, sizes.get? n = some z → s.desk.layout.hasScreen n = true ∧ 0 < z.w ∧ 0 < z.h)
      ∧ ∀ n, positions.get? n = none → s.accepted.positions n = none
  | .tuning _ => True

/-- What a change that is saved leaves to be done. -/
def Follows (s : ConfigRun) : Change → Prop
  | .trust name _ _ _ => name ∈ s.file.names
  | .disable name disabled => s.accepted.disabled name = disabled
  | .layout positions sizes =>
    s.accepted.positions = positions.get? ∧ s.accepted.sizes = sizes.get?
  | _ => True

def Fits (s : ConfigRun) : AdminPc → Prop
  | .prior name _ listed => listed = true → s.desk.layout.hasScreen name = true
  | .trusting name _ listed previous => (listed = true → s.desk.layout.hasScreen name = true)
      ∧ s.trusted name = previous ∧ s.accepted.trusted name = previous
  | .toRead c => s.Waits c
  | .toReplace c new => s.Waits c ∧ c.edit s.file = some new
  | .undo c => s.Waits c
  | .saved c => s.Follows c
  | .sizing positions sizes => s.desk.positions = positions
      ∧ s.accepted.positions = positions.get? ∧ s.accepted.sizes = sizes.get?
  | _ => True

variable {s s' : ConfigRun}

/-- What is even in a section stays so while the section is the same. -/
theorem Even.same {r : Section} (h : s.Even r) (hsame : s.Same s' r) : s'.Even r := by
  cases r with
  | file => trivial
  | trust name => exact hsame.1.trans (h.trans hsame.2.symm)
  | disabled name =>
    show decide (name ∈ s'.hub.disabled) = _
    rw [hsame.2, decide_eq_decide.mpr hsame.1]
    exact h
  | layout =>
    show s'.desk.positions.get? = _ ∧ s'.desk.sizes.get? = _
    rw [hsame.1.1, hsame.1.2, hsame.2.1, hsame.2.2]
    exact h

/-- The desk and the file only grow. -/
structure Grows (s s' : ConfigRun) : Prop where
  desk : ∀ n, s.desk.layout.hasScreen n = true → s'.desk.layout.hasScreen n = true
  file : ∀ n ∈ s.file.names, n ∈ s'.file.names

/-- A change that waits goes on waiting while its section is the same and the file only grows. -/
theorem Waits.same {c : Change} (h : s.Waits c) (hgrows : s.Grows s')
    (hsame : ∀ r ∈ c.section?, s.Same s' r) : s'.Waits c := by
  cases c with
  | trust name fp listed previous =>
    obtain ⟨htrusted, haccepted⟩ := hsame (.trust name) rfl
    exact ⟨fun hl => hgrows.desk name (h.1 hl), htrusted.trans h.2.1, haccepted.trans h.2.2⟩
  | untrust name old =>
    obtain ⟨htrusted, haccepted⟩ := hsame (.trust name) rfl
    exact ⟨htrusted.trans h.1, haccepted.trans h.2⟩
  | disable name disabled => exact hgrows.desk name h
  | layout positions sizes =>
    have hlayout := hsame .layout rfl
    obtain ⟨heven, hplaced, hsized, hunplaced⟩ := h
    refine ⟨heven.same hlayout, fun n hn => hgrows.desk n (hplaced n hn),
      fun n z hz => ⟨hgrows.desk n (hsized n z hz).1, (hsized n z hz).2⟩, fun n hn => ?_⟩
    rw [hlayout.2.1]
    exact hunplaced n hn
  | tuning t => trivial

/-- What is so of a call stays so as long as its sections are left alone. -/
theorem Fits.same {pc : AdminPc} (h : s.Fits pc) (hgrows : s.Grows s')
    (hsame : ∀ r ∈ pc.sections, s.Same s' r) : s'.Fits pc := by
  have hsection : ∀ {c : Change}, (∀ r ∈ c.section?.toList, s.Same s' r) →
      ∀ r ∈ c.section?, s.Same s' r := fun h r hr => h r (Option.mem_toList.mpr hr)
  cases pc with
  | prior name fp listed => exact fun hl => hgrows.desk name (h hl)
  | trusting name fp listed previous =>
    obtain ⟨htrusted, haccepted⟩ := hsame (.trust name) (List.mem_singleton_self _)
    exact ⟨fun hl => hgrows.desk name (h.1 hl), htrusted.trans h.2.1, haccepted.trans h.2.2⟩
  | toRead c => exact Waits.same h hgrows (hsection hsame)
  | toReplace c new =>
    have hfile : s'.file = s.file := hsame .file List.mem_cons_self
    refine ⟨h.1.same hgrows (hsection fun r hr => hsame r (List.mem_cons_of_mem _ hr)), ?_⟩
    rw [hfile]
    exact h.2
  | undo c => exact Waits.same h hgrows (hsection hsame)
  | saved c =>
    cases c with
    | trust name fp listed previous => exact hgrows.file name h
    | untrust name old => trivial
    | disable name disabled =>
      exact (hsame (.disabled name) (List.mem_singleton_self _)).2.trans h
    | layout positions sizes =>
      obtain ⟨-, hpositions, hsizes⟩ := hsame .layout (List.mem_singleton_self _)
      exact ⟨hpositions.trans h.1, hsizes.trans h.2⟩
    | tuning t => trivial
  | sizing positions sizes =>
    obtain ⟨⟨hdesk, -⟩, hpositions, hsizes⟩ := hsame .layout (List.mem_singleton_self _)
    exact ⟨hdesk.trans h.1, hpositions.trans h.2.1, hsizes.trans h.2.2⟩
  | telling positions sizes => trivial
  | adding name => trivial
  | returned ok => trivial

/-! ## The invariant

Every section is even, or some call is in it. -/

/-- What the file and the record are to each other, and to the desk. -/
structure Recorded (s : ConfigRun) : Prop where
  valid : s.file.Valid
  file : s.file.settings = s.accepted
  listed : ∀ n, s.desk.layout.hasScreen n = true → n ∈ s.file.names
  placed : ∀ n, s.accepted.positions n ≠ none → s.desk.layout.hasScreen n = true
  sized : ∀ n z, s.accepted.sizes n = some z →
    s.desk.layout.hasScreen n = true ∧ 0 < z.w ∧ 0 < z.h

structure SavedInv (s : ConfigRun) : Prop where
  recorded : s.Recorded
  fresh : ∀ call pc, s.calls.get? call = some pc → call < s.nextCall
  /-- No two calls are in one section. -/
  apart : ∀ call call' pc pc', s.calls.get? call = some pc → s.calls.get? call' = some pc' →
    ∀ r ∈ pc.sections, r ∈ pc'.sections → call = call'
  fits : ∀ call pc, s.calls.get? call = some pc → s.Fits pc
  /-- What no call is in is even. -/
  even : ∀ r, s.Even r ∨ s.calls.Any fun pc => r ∈ pc.sections

/-- A section that nobody is in. -/
theorem SavedInv.even_of_free (h : SavedInv s) {r : Section}
    (hfree : s.calls.All fun pc => r ∉ pc.sections) : s.Even r := by
  rcases h.even r with heven | ⟨call, pc, hpc, hr⟩
  · exact heven
  · exact absurd hr (hfree call pc hpc)

/-- A step that is about no section, and no call. -/
theorem SavedInv.aside (h : SavedInv s) (hgrows : s.Grows s') (hrecorded : s'.Recorded)
    (hsame : ∀ r, s.Same s' r) (hcalls : s'.calls = s.calls) (hnext : s'.nextCall = s.nextCall) :
    SavedInv s' where
  recorded := hrecorded
  fresh := by
    rw [hcalls, hnext]
    exact h.fresh
  apart := by
    rw [hcalls]
    exact h.apart
  fits := by
    rw [hcalls]
    exact fun call pc hpc => (h.fits call pc hpc).same hgrows fun r _ => hsame r
  even := by
    rw [hcalls]
    exact fun r => (h.even r).imp_left fun heven => heven.same (hsame r)

/-- **A step of a call**: it changes nothing but the sections `touched`, in which no other call is;
and the ones it is not in afterwards it leaves even. -/
theorem SavedInv.moved (h : SavedInv s) (call : Nat) (pc : AdminPc) (touched : List Section)
    (hcalls : s'.calls = s.calls.put call pc) (hnext : s.nextCall ≤ s'.nextCall)
    (hcall : call < s'.nextCall)
    (hfree : ∀ r ∈ touched, ∀ other opc, s.calls.get? other = some opc → other ≠ call →
      r ∉ opc.sections)
    (hwas : ∀ opc, s.calls.get? call = some opc → ∀ r ∈ opc.sections, r ∈ touched)
    (hsub : ∀ r ∈ pc.sections, r ∈ touched) (hgrows : s.Grows s') (hrecorded : s'.Recorded)
    (hsame : ∀ r, r ∉ touched → s.Same s' r) (hfits : s'.Fits pc)
    (heven : ∀ r ∈ touched, r ∉ pc.sections → s'.Even r) : SavedInv s' where
  recorded := hrecorded
  -- a new call, or one that was there
  fresh := by
    intro other opc hopc
    rw [hcalls, Dict.get?_put] at hopc
    split at hopc
    · next hother => rw [hother]; exact hcall
    · exact Nat.lt_of_lt_of_le (h.fresh other opc hopc) hnext
  apart := by
    -- two calls share a section only when they are one and the same
    intro a b pca pcb ha hb r hra hrb
    rw [hcalls, Dict.get?_put] at ha hb
    split at ha
    · next hac =>
      cases ha
      split at hb
      · next hbc => rw [hac, hbc]
      · next hbc => exact absurd hrb (hfree r (hsub r hra) b pcb hb hbc)
    · next hac =>
      split at hb
      · cases hb
        exact absurd hra (hfree r (hsub r hrb) a pca ha hac)
      · exact h.apart a b pca pcb ha hb r hra hrb
  fits := by
    intro other opc hopc
    rw [hcalls, Dict.get?_put] at hopc
    split at hopc
    · cases hopc
      exact hfits
    -- another call fits what it fitted before, as its sections were not touched
    · next hother =>
      refine (h.fits other opc hopc).same hgrows fun r hr => hsame r fun htouched => ?_
      exact hfree r htouched other opc hopc hother hr
  even := by
    intro r
    rw [hcalls]
    -- a section the call still holds, one it gave up, and one it never had
    by_cases hr : r ∈ pc.sections
    · exact .inr (.intro (by rw [Dict.get?_put, if_pos rfl]) hr)
    by_cases htouched : r ∈ touched
    · exact .inl (heven r htouched hr)
    · refine (h.even r).imp (fun he => he.same (hsame r htouched)) ?_
      rintro ⟨other, opc, hopc, hor⟩
      have hother : other ≠ call := by
        rintro rfl
        exact htouched (hwas opc hopc r hor)
      exact ⟨other, opc, by rw [Dict.get?_put, if_neg hother]; exact hopc, hor⟩

/-! ## Steps that leave the file alone -/

/-- A section is the same where the file, the record and that part of the memory are. -/
theorem Same.rfl_of {r : Section} (hfile : s'.file = s.file) (haccepted : s'.accepted = s.accepted)
    (htrusted : ∀ n, r = .trust n → s'.trusted n = s.trusted n)
    (hdisabled : ∀ n, r = .disabled n → (n ∈ s'.hub.disabled ↔ n ∈ s.hub.disabled))
    (hlayout : r = .layout →
      s'.desk.positions = s.desk.positions ∧ s'.desk.sizes = s.desk.sizes) : s.Same s' r := by
  cases r with
  | file => exact hfile
  | trust n => exact ⟨htrusted n rfl, by rw [haccepted]⟩
  | disabled n => exact ⟨hdisabled n rfl, by rw [haccepted]⟩
  | layout => exact ⟨hlayout rfl, by rw [haccepted], by rw [haccepted]⟩

/-- The record agrees as long as none of the three moves. -/
theorem Recorded.kept (h : Recorded s) (hfile : s'.file = s.file)
    (haccepted : s'.accepted = s.accepted) (hlayout : s'.desk.layout = s.desk.layout) :
    Recorded s' ∧ s.Grows s' := by
  refine ⟨⟨?_, ?_, ?_, ?_, ?_⟩, ?_, ?_⟩
  · rw [hfile]; exact h.valid
  · rw [hfile, haccepted]; exact h.file
  · rw [hlayout, hfile]; exact h.listed
  · rw [hlayout, haccepted]; exact h.placed
  · rw [hlayout, haccepted]; exact h.sized
  · rw [hlayout]; exact fun _ => id
  · rw [hfile]; exact fun _ => id

/-- A call begins, in a state that is otherwise the same but for the section it enters. -/
theorem SavedInv.begun (h : SavedInv s) {t : ConfigRun} {pc : AdminPc} (hfile : t.file = s.file)
    (haccepted : t.accepted = s.accepted) (hlayout : t.desk.layout = s.desk.layout)
    (hcalls : t.calls = s.calls) (hnext : t.nextCall = s.nextCall)
    (hfree : ∀ r ∈ pc.sections, s.calls.All fun opc => r ∉ opc.sections)
    (hsame : ∀ r, r ∉ pc.sections → s.Same t r) (hfits : t.Fits pc) : SavedInv (t.addCall pc) := by
  have hkept : Recorded (t.addCall pc) ∧ s.Grows (t.addCall pc) :=
    h.recorded.kept hfile haccepted hlayout
  obtain ⟨hrecorded, hgrows⟩ := hkept
  have hnew : s.calls.get? s.nextCall = none := by
    cases hc : s.calls.get? s.nextCall with
    | none => rfl
    | some opc => exact absurd (h.fresh _ opc hc) (Nat.lt_irrefl _)
  refine h.moved s.nextCall pc pc.sections ?_ ?_ ?_ ?_ ?_ (fun _ => id) hgrows
    hrecorded ?_ ?_ (fun r hr hnot => absurd hr hnot)
  · show t.calls.put t.nextCall pc = _
    rw [hcalls, hnext]
  · show s.nextCall ≤ t.nextCall + 1
    omega
  · show s.nextCall < t.nextCall + 1
    omega
  · exact fun r hr other opc hopc _ => hfree r hr other opc hopc
  · intro opc hopc
    rw [hnew] at hopc
    cases hopc
  · intro r hr
    have hr := hsame r hr
    cases r <;> exact hr
  · cases pc <;> exact hfits

/-- The next section of a call, in a state that is otherwise the same. -/
theorem SavedInv.advanced (h : SavedInv s) {call : Nat} {opc : AdminPc}
    (hopc : s.calls.get? call = some opc) (pc : AdminPc) (entered : List Section)
    (hfree : ∀ r ∈ entered, s.calls.All fun pc => r ∉ pc.sections)
    (hsub : ∀ r ∈ pc.sections, r ∈ opc.sections ∨ r ∈ entered) {t : ConfigRun}
    (hcalls : t.calls = s.calls) (hnext : t.nextCall = s.nextCall) (hgrows : s.Grows t)
    (hrecorded : t.Recorded)
    (hsame : ∀ r, r ∉ opc.sections → r ∉ entered → s.Same t r) (hfits : t.Fits pc)
    (heven : ∀ r, r ∈ opc.sections ∨ r ∈ entered → r ∉ pc.sections → t.Even r) :
    SavedInv { t with calls := t.calls.put call pc } := by
  refine h.moved call pc (opc.sections ++ entered) ?_ (Nat.le_of_eq hnext.symm)
    ?_ ?_ ?_ (fun r hr => List.mem_append.mpr (hsub r hr)) ⟨hgrows.desk, hgrows.file⟩
    ⟨hrecorded.valid, hrecorded.file, hrecorded.listed, hrecorded.placed, hrecorded.sized⟩ ?_ ?_ ?_
  · show t.calls.put call pc = _
    rw [hcalls]
  · show call < t.nextCall
    rw [hnext]
    exact h.fresh call opc hopc
  · intro r hr other oopc hoopc hother hor
    rcases List.mem_append.mp hr with hr | hr
    · exact hother (h.apart other call oopc opc hoopc hopc r hor hr)
    · exact hfree r hr other oopc hoopc hor
  · intro opc' hopc' r hr
    rw [hopc] at hopc'
    cases hopc'
    exact List.mem_append_left _ hr
  · intro r hr
    rw [List.mem_append, not_or] at hr
    have hr := hsame r hr.1 hr.2
    cases r <;> exact hr
  · cases pc <;> exact hfits
  · intro r hr hnot
    have hr := heven r (List.mem_append.mp hr) hnot
    cases r <;> exact hr

/-! ## The sections of a call

From one place of a call to the next, section by section. -/

section Sections

variable {call : Nat}

/-- Nobody is in the sections a call enters. -/
theorem Apart.free {ok : Bool} {opc : AdminPc} (h : s.Apart (.go call ok))
    (hopc : s.calls.get? call = some opc) :
    ∀ r ∈ opc.enters s.file ok, s.calls.All fun pc => r ∉ pc.sections := by
  intro r hr
  refine h r ?_
  simp only [enters, hopc]
  exact hr

/-- The file could not be read, edited or replaced. -/
theorem SavedInv.failed (h : SavedInv s) {opc : AdminPc} {c : Change}
    (hopc : s.calls.get? call = some opc)
    (hsections : opc.sections = c.section?.toList ∨ opc.sections = .file :: c.section?.toList)
    (hwaits : s.Waits c) :
    SavedInv { s with calls := s.calls.put call (failed c) } := by
  have hsub : ∀ r ∈ c.section?.toList, r ∈ opc.sections := by
    rcases hsections with heq | heq
    · rw [heq]; exact fun _ => id
    · rw [heq]; exact fun r hr => List.mem_cons_of_mem _ hr
  have hwithin : ∀ r ∈ opc.sections, r = .file ∨ r ∈ c.section?.toList := by
    rcases hsections with heq | heq
    · rw [heq]; exact fun _ => .inr
    · rw [heq]; exact fun r hr => List.mem_cons.mp hr
  refine h.advanced hopc (ConfigRun.failed c) [] (fun _ hr => absurd hr List.not_mem_nil)
    (fun r hr => .inl ?_) rfl rfl
    ⟨fun _ => id, fun _ => id⟩ h.recorded (fun r _ _ => Same.rfl_of rfl rfl (fun _ _ => rfl)
      (fun _ _ => Iff.rfl) fun _ => ⟨rfl, rfl⟩) ?_ (fun r hr hnot => ?_)
  · refine hsub r ?_
    cases c <;> first | exact hr | cases hr
  · cases c <;> first | exact hwaits | trivial
  · rcases hwithin r (hr.resolve_right List.not_mem_nil) with rfl | hr
    · trivial
    · cases c with
      | trust name fp listed previous => exact absurd hr hnot
      | untrust name old => exact absurd hr hnot
      | layout positions sizes =>
        rw [List.mem_singleton.mp hr]
        exact hwaits.1
      | disable name disabled => cases hr
      | tuning t => cases hr

/-- What a change that is saved leaves of what it does not mean. -/
theorem apply_other {c : Change} {a : Settings} :
    (∀ n, Section.trust n ∉ c.section? → (c.apply a).trusted n = a.trusted n)
    ∧ (∀ n, (∀ disabled, c ≠ .disable n disabled) → (c.apply a).disabled n = a.disabled n)
    ∧ (.layout ∉ c.section? → (c.apply a).positions = a.positions
      ∧ (c.apply a).sizes = a.sizes) := by
  refine ⟨fun n hn => ?_, fun n hn => ?_, fun hn => ?_⟩
  · cases c with
    | trust name fp listed previous =>
      refine Function.update_of_ne ?_ _ _
      rintro rfl
      exact hn rfl
    | untrust name old =>
      refine Function.update_of_ne ?_ _ _
      rintro rfl
      exact hn rfl
    | _ => rfl
  · cases c with
    | disable name disabled =>
      refine Function.update_of_ne ?_ _ _
      rintro rfl
      exact hn disabled rfl
    | _ => rfl
  · cases c with
    | layout positions sizes => exact absurd rfl hn
    | _ => exact ⟨rfl, rfl⟩

/-- Replacing the file takes the change on record, and the section is even again. -/
theorem SavedInv.replaced (h : SavedInv s) {c : Change} {new : ConfigFile}
    (hopc : s.calls.get? call = some (.toReplace c new)) (hapart : s.Apart (.go call true)) :
    SavedInv { s with
      file := new, accepted := c.apply s.accepted, calls := s.calls.put call (done c) } := by
  obtain ⟨hwaits, hedit⟩ := h.fits call _ hopc
  have hrec := h.recorded
  -- what the call found on entering is still so when it edits the file
  have hsuits : s.file.Suits c := by
    cases c with
    | trust name fp listed previous => exact fun hl => hrec.listed name (hwaits.1 hl)
    | untrust name old => trivial
    | disable name disabled => exact hrec.listed name hwaits
    | layout positions sizes =>
      obtain ⟨-, hplaced, hsized, hunplaced⟩ := hwaits
      refine ⟨fun n hn => hrec.listed n (hplaced n hn),
        fun n z hz => ⟨hrec.listed n (hsized n z hz).1, (hsized n z hz).2⟩, ?_⟩
      rw [hrec.file]
      exact hunplaced
    | tuning t => trivial
  obtain ⟨hvalid, hsettings, hnames, hadded⟩ := ConfigFile.edit_spec hrec.valid hsuits hedit
  obtain ⟨hother, hdisabled, hlayout⟩ := apply_other (c := c) (a := s.accepted)
  have hrecorded : ({ s with file := new, accepted := c.apply s.accepted } : ConfigRun).Recorded := by
    refine ⟨hvalid, hsettings.trans (by rw [hrec.file]),
      fun n hn => hnames n (hrec.listed n hn), ?_, ?_⟩
    · intro n hn
      cases c with
      | layout positions sizes => exact hwaits.2.1 n hn
      | _ => exact hrec.placed n hn
    · intro n z hz
      cases c with
      | layout positions sizes => exact hwaits.2.2.1 n z hz
      | _ => exact hrec.sized n z hz
  refine h.advanced (t := { s with file := new, accepted := c.apply s.accepted }) hopc (done c)
    (AdminPc.enters s.file true (.toReplace c new)) (hapart.free hopc) (fun r hr => ?_)
    rfl rfl ⟨fun _ => id, hnames⟩ hrecorded (fun r hr hnot => ?_) ?_
    (fun r hr hnot => ?_)
  · cases c with
    | trust name fp listed previous => cases listed <;> cases hr
    | untrust name old => cases hr
    | disable name disabled => exact .inr hr
    | layout positions sizes => exact .inl (List.mem_cons_of_mem _ hr)
    | tuning t => cases hr
  · have hsection : r ∉ c.section? := fun hin =>
      hr (List.mem_cons_of_mem _ (Option.mem_toList.mpr hin))
    cases r with
    | file => exact absurd List.mem_cons_self hr
    | trust n => exact ⟨rfl, hother n hsection⟩
    | disabled n =>
      refine ⟨Iff.rfl, hdisabled n fun disabled heq => hnot ?_⟩
      subst heq
      exact List.mem_singleton_self _
    | layout => exact ⟨⟨rfl, rfl⟩, hlayout hsection⟩
  · cases c with
    | trust name fp listed previous =>
      cases listed with
      | true => trivial
      | false => exact hadded name fp false previous rfl
    | untrust name old => trivial
    | disable name disabled => exact Function.update_self ..
    | layout positions sizes => exact ⟨rfl, rfl⟩
    | tuning t => trivial
  · cases c with
    | trust name fp listed previous =>
      rcases hr with hr | hr
      · rcases List.mem_cons.mp hr with rfl | hr
        · trivial
        · rw [List.mem_singleton.mp hr]
          show s.trusted name = Function.update s.accepted.trusted name (some fp) name
          rw [Function.update_self]
          exact hwaits.2.1
      · cases hr
    | untrust name old =>
      rcases hr with hr | hr
      · rcases List.mem_cons.mp hr with rfl | hr
        · trivial
        · rw [List.mem_singleton.mp hr]
          show s.trusted name = Function.update s.accepted.trusted name none name
          rw [Function.update_self]
          exact hwaits.1
      · cases hr
    | disable name disabled =>
      rcases hr with hr | hr
      · rw [List.mem_singleton.mp hr]
        trivial
      · exact absurd hr hnot
    | layout positions sizes =>
      rcases hr with hr | hr
      · rcases List.mem_cons.mp hr with rfl | hr
        · trivial
        · exact absurd hr hnot
      · cases hr
    | tuning t =>
      rcases hr with hr | hr
      · rw [List.mem_singleton.mp hr]
        trivial
      · cases hr

/-- The trust of one name is changed, by a call that is in its section. -/
theorem SavedInv.trusted_changed (h : SavedInv s) {opc pc : AdminPc} {name : String} {t : Trust}
    (hopc : s.calls.get? call = some opc) (hin : opc.sections = [.trust name])
    (hsub : ∀ r ∈ pc.sections, r = .trust name)
    (hother : ∀ n, n ≠ name → t.trusted.get? n = s.trusted n) (hfits : (s.setTrust t).Fits pc)
    (heven : Section.trust name ∉ pc.sections →
      t.trusted.get? name = s.accepted.trusted name) :
    SavedInv { s.setTrust t with calls := s.calls.put call pc } := by
  refine h.advanced (t := s.setTrust t) hopc pc [] (fun _ hr => absurd hr List.not_mem_nil)
    (fun r hr => .inl ?_) rfl rfl ⟨fun _ => id, fun _ => id⟩
    ⟨h.recorded.valid, h.recorded.file, h.recorded.listed, h.recorded.placed, h.recorded.sized⟩
    (fun r hr _ => Same.rfl_of rfl rfl (fun n hn => hother n ?_) (fun _ _ => Iff.rfl)
      fun _ => ⟨rfl, rfl⟩) hfits (fun r hr hnot => ?_)
  · rw [hin, hsub r hr]
    exact List.mem_singleton_self _
  · rintro rfl
    exact hr (by rw [hin, hn]; exact List.mem_singleton_self _)
  · have hr := hr.resolve_right List.not_mem_nil
    rw [hin] at hr
    rw [List.mem_singleton.mp hr] at hnot ⊢
    exact heven hnot

/-- The certificate trusted so far is read. -/
theorem SavedInv.looked (h : SavedInv s) {name : String} {fp : Fingerprint} {listed ok : Bool}
    (hopc : s.calls.get? call = some (.prior name fp listed)) (hapart : s.Apart (.go call ok)) :
    SavedInv { s with
      calls := s.calls.put call (.trusting name fp listed (s.trusted name)) } := by
  have hfree := hapart.free hopc
  have heven : s.Even (.trust name) := h.even_of_free (hfree _ (List.mem_singleton_self _))
  refine h.advanced hopc (.trusting name fp listed (s.trusted name)) [.trust name] hfree
    (fun r hr => .inr hr)
    rfl rfl
    ⟨fun _ => id, fun _ => id⟩ h.recorded (fun r _ _ => Same.rfl_of rfl rfl (fun _ _ => rfl)
      (fun _ _ => Iff.rfl) fun _ => ⟨rfl, rfl⟩) ⟨h.fits call _ hopc, rfl, heven.symm⟩
    (fun r hr hnot => absurd ?_ hnot)
  rcases hr with hr | hr
  · cases hr
  · exact hr

/-- An approval that is tried has changed the trusted map, and its section waits for the file. -/
theorem SavedInv.tried (h : SavedInv s) {name : String} {fp : Fingerprint} {listed : Bool}
    {previous : Option Fingerprint} {t : Trust} (htrust : s.desk.trust = some t)
    (hopc : s.calls.get? call = some (.trusting name fp listed previous)) :
    SavedInv (if (t.approve name fp).2 = true then { s.setTrust (t.approve name fp).1 with
        calls := s.calls.put call (.toRead (.trust name fp listed previous)) }
      else { s with calls := s.calls.put call (.returned false) }) := by
  obtain ⟨hlisted, hwas, haccepted⟩ := h.fits call _ hopc
  have hmem : ∀ n, s.trusted n = t.trusted.get? n := fun n => by rw [trusted, htrust]; rfl
  -- only a certificate that is waiting gets into the table
  by_cases hpending : t.pending.any (Trust.Pending.is name fp) = true
  · have happrove : t.approve name fp = (⟨t.trusted.put name fp,
        t.pending.filter (·.name != name)⟩, true) := if_pos hpending
    rw [happrove, if_pos rfl]
    have hnow : (t.trusted.put name fp).get? name = some fp := by rw [Dict.get?_put, if_pos rfl]
    exact h.trusted_changed hopc rfl (fun r hr => List.mem_singleton.mp hr)
      (fun n hn => by rw [hmem]; exact (Dict.get?_put _ _ _ _).trans (if_neg hn))
      ⟨hlisted, hnow, haccepted⟩ (fun hnot => absurd (List.mem_singleton_self _) hnot)
  · have happrove : t.approve name fp = (t, false) := if_neg hpending
    rw [happrove, if_neg (by simp)]
    refine h.advanced hopc (.returned false) [] (fun _ hr => absurd hr List.not_mem_nil)
      (fun _ hr => absurd hr List.not_mem_nil) rfl rfl
      ⟨fun _ => id, fun _ => id⟩ h.recorded (fun r _ _ => Same.rfl_of rfl rfl (fun _ _ => rfl)
        (fun _ _ => Iff.rfl) fun _ => ⟨rfl, rfl⟩) trivial (fun r hr _ => ?_)
    rw [List.mem_singleton.mp (hr.resolve_right List.not_mem_nil)]
    exact hwas.trans haccepted.symm

/-- The trust is put back as it was. -/
theorem SavedInv.restored (h : SavedInv s) {c : Change} {name : String} {was : Option Fingerprint}
    {t : Trust} (htrust : s.desk.trust = some t) (hopc : s.calls.get? call = some (.undo c))
    (hsection : c.section? = some (.trust name)) (haccepted : s.accepted.trusted name = was) :
    SavedInv { s.setTrust (t.restore name was) with
      calls := s.calls.put call (.returned false) } := by
  have hmem : ∀ n, s.trusted n = t.trusted.get? n := fun n => by rw [trusted, htrust]; rfl
  have hin : (AdminPc.undo c).sections = [.trust name] := by
    show c.section?.toList = _
    rw [hsection]
    rfl
  refine h.trusted_changed hopc hin (fun _ hr => absurd hr List.not_mem_nil) (fun n hn => ?_)
    trivial (fun _ => ?_)
  · rw [hmem, Trust.restore_get?, if_neg hn]
  · rw [haccepted, Trust.restore_get?, if_pos rfl]

/-- The hub is told: nothing that is saved changes. -/
theorem SavedInv.told (h : SavedInv s) {opc pc : AdminPc} {hub : Hub ServerMsg}
    (hopc : s.calls.get? call = some opc) (hin : opc.sections = []) (hout : pc.sections = [])
    (hdisabled : hub.disabled = s.hub.disabled) (hfits : ∀ s : ConfigRun, s.Fits pc) :
    SavedInv { s with hub := hub, calls := s.calls.put call pc } := by
  refine h.advanced (t := { s with hub := hub }) hopc pc [] (fun _ hr => absurd hr List.not_mem_nil)
    (fun r hr => ?_) rfl rfl ⟨fun _ => id, fun _ => id⟩
    ⟨h.recorded.valid, h.recorded.file, h.recorded.listed, h.recorded.placed, h.recorded.sized⟩
    (fun r _ _ => Same.rfl_of rfl rfl (fun _ _ => rfl) (fun n _ => ?_) fun _ => ⟨rfl, rfl⟩)
    (hfits _) (fun r hr _ => ?_)
  · rw [hout] at hr
    cases hr
  · show n ∈ hub.disabled ↔ _
    rw [hdisabled]
  · rw [hin] at hr
    exact absurd hr (by simp)

/-- A new screen joins the desk: it is in the file already. -/
theorem SavedInv.joined (h : SavedInv s) {name : String} {fp : Fingerprint} {listed : Bool}
    {previous : Option Fingerprint}
    (hopc : s.calls.get? call = some (.saved (.trust name fp listed previous))) :
    SavedInv { s with
      desk := { s.desk with layout := (s.desk.layout.addScreen name).1 }
      calls := s.calls.put call (.adding name) } := by
  -- the save has put its table in the file
  have hin : name ∈ s.file.names := h.fits call _ hopc
  have hscreens : ∀ n, ((s.desk.layout.addScreen name).1).hasScreen n = true
      ↔ s.desk.layout.hasScreen n = true ∨ n = name := by
    intro n
    unfold Layout.addScreen
    split
    · next hhas => exact ⟨.inl, fun hn => hn.elim id fun heq => heq ▸ hhas⟩
    · rw [DeskState.hasScreen_iff, DeskState.hasScreen_iff, List.mem_append, List.mem_singleton]
  have hrec := h.recorded
  refine h.advanced (t := { s with desk := { s.desk with
      layout := (s.desk.layout.addScreen name).1 } }) hopc (.adding name) []
    (fun _ hr => absurd hr List.not_mem_nil)
    (fun _ hr => absurd hr List.not_mem_nil) rfl rfl
    ⟨fun n hn => (hscreens n).mpr (.inl hn), fun _ => id⟩
    ⟨hrec.valid, hrec.file, fun n hn => ?_, fun n hn => (hscreens n).mpr (.inl (hrec.placed n hn)),
      fun n z hz => ⟨(hscreens n).mpr (.inl (hrec.sized n z hz).1), (hrec.sized n z hz).2⟩⟩
    (fun r _ _ => Same.rfl_of rfl rfl (fun _ _ => rfl) (fun _ _ => Iff.rfl) fun _ => ⟨rfl, rfl⟩)
    trivial (fun r hr _ => ?_)
  · rcases (hscreens n).mp hn with hn | rfl
    · exact hrec.listed n hn
    · exact hin
  · exact absurd hr (by simp [AdminPc.sections])

/-- A screen is turned off or on. -/
theorem SavedInv.turned (h : SavedInv s) {name : String} {disabled : Bool}
    (hopc : s.calls.get? call = some (.saved (.disable name disabled))) :
    SavedInv { s with
      hub := s.hub.setDisabled name disabled, calls := s.calls.put call (.returned true) } := by
  have haccepted : s.accepted.disabled name = disabled := h.fits call _ hopc
  have hmem : ∀ n, n ∈ (s.hub.setDisabled name disabled).disabled
      ↔ if n = name then disabled = true else n ∈ s.hub.disabled := by
    intro n
    rw [(Hub.setDisabled_frame _ _ _).2.2]
    by_cases hn : n = name
    · cases disabled <;> simp [hn]
    · cases disabled <;> simp [hn]
  refine h.advanced (t := { s with hub := s.hub.setDisabled name disabled }) hopc (.returned true) []
    (fun _ hr => absurd hr List.not_mem_nil)
    (fun _ hr => absurd hr List.not_mem_nil) rfl rfl ⟨fun _ => id, fun _ => id⟩
    ⟨h.recorded.valid, h.recorded.file, h.recorded.listed, h.recorded.placed, h.recorded.sized⟩
    (fun r hr _ => Same.rfl_of rfl rfl (fun _ _ => rfl) (fun n hn => ?_) fun _ => ⟨rfl, rfl⟩)
    trivial (fun r hr _ => ?_)
  · rw [hmem, if_neg]
    rintro rfl
    exact hr (by rw [hn]; exact List.mem_singleton_self _)
  · rw [List.mem_singleton.mp (hr.resolve_right List.not_mem_nil)]
    show decide (name ∈ (s.hub.setDisabled name disabled).disabled) = s.accepted.disabled name
    rw [haccepted, Bool.eq_iff_iff, decide_eq_true_iff, hmem, if_pos rfl]

/-- The first half of a saved layout: its positions are in memory. -/
theorem SavedInv.positioned (h : SavedInv s) {positions : Dict String Point}
    {sizes : Dict String Size} (hopc : s.calls.get? call = some (.saved (.layout positions sizes))) :
    SavedInv { s with
      desk := { s.desk with positions := positions }
      calls := s.calls.put call (.sizing positions sizes) } := by
  have hfits := h.fits call _ hopc
  refine h.advanced (t := { s with desk := { s.desk with positions := positions } }) hopc
    (.sizing positions sizes) []
    (fun _ hr => absurd hr List.not_mem_nil) (fun r hr => .inl hr) rfl rfl
    ⟨fun _ => id, fun _ => id⟩
    ⟨h.recorded.valid, h.recorded.file, h.recorded.listed, h.recorded.placed, h.recorded.sized⟩
    (fun r hr _ => Same.rfl_of rfl rfl (fun _ _ => rfl) (fun _ _ => Iff.rfl) fun hlayout => ?_)
    ⟨rfl, hfits⟩ (fun r hr hnot => ?_)
  · exact absurd (List.mem_singleton.mpr hlayout) hr
  · exact absurd (hr.resolve_right List.not_mem_nil) hnot

/-- The second half: its sizes are. -/
theorem SavedInv.resized (h : SavedInv s) {positions : Dict String Point}
    {sizes : Dict String Size} (hopc : s.calls.get? call = some (.sizing positions sizes)) :
    SavedInv { s with
      desk := { s.desk with sizes := sizes }
      calls := s.calls.put call (.telling positions sizes) } := by
  obtain ⟨hdesk, hpositions, hsizes⟩ := h.fits call _ hopc
  refine h.advanced (t := { s with desk := { s.desk with sizes := sizes } }) hopc
    (.telling positions sizes) []
    (fun _ hr => absurd hr List.not_mem_nil)
    (fun _ hr => absurd hr List.not_mem_nil) rfl rfl ⟨fun _ => id, fun _ => id⟩
    ⟨h.recorded.valid, h.recorded.file, h.recorded.listed, h.recorded.placed, h.recorded.sized⟩
    (fun r hr _ => Same.rfl_of rfl rfl (fun _ _ => rfl) (fun _ _ => Iff.rfl) fun hlayout => ?_)
    trivial (fun r hr _ => ?_)
  · exact absurd (List.mem_singleton.mpr hlayout) hr
  · rw [List.mem_singleton.mp (hr.resolve_right List.not_mem_nil)]
    exact ⟨by rw [hpositions, hdesk], hsizes.symm⟩

/-- **What the next section of a call preserves**, one case for each. -/
theorem SavedInv.advance (h : SavedInv s) {opc pc : AdminPc} {ok : Bool} {t : ConfigRun}
    (hopc : s.calls.get? call = some opc) (hapart : s.Apart (.go call ok))
    (hadv : s.advance ok opc = some (t, pc)) :
    SavedInv { t with calls := t.calls.put call pc } := by
  -- by where the call was
  cases opc with
  | prior name fp listed =>
    cases hadv
    exact h.looked hopc hapart
  | trusting name fp listed previous =>
    cases htrust : s.desk.trust with
    | none => simp [ConfigRun.advance, htrust] at hadv
    | some t =>
      have htried := h.tried htrust hopc
      simp only [ConfigRun.advance, htrust] at hadv
      cases happrove : t.approve name fp with
      | mk t' trusted =>
        rw [happrove] at htried hadv
        cases trusted with
        | true => cases hadv; exact htried
        | false => cases hadv; exact htried
  | toRead c =>
    have hwaits : s.Waits c := h.fits call _ hopc
    simp only [ConfigRun.advance] at hadv
    split at hadv
    · next new hedit =>
      cases hadv
      -- to read the file is to hold it until it is replaced
      have henters : (AdminPc.toRead c).enters s.file true = [.file] := by
        simp [AdminPc.enters, hedit]
      refine h.advanced hopc (.toReplace c new) [.file] (henters ▸ hapart.free hopc)
        (fun r hr => ?_) rfl rfl ⟨fun _ => id, fun _ => id⟩ h.recorded
        (fun r _ _ => Same.rfl_of rfl rfl (fun _ _ => rfl) (fun _ _ => Iff.rfl)
          fun _ => ⟨rfl, rfl⟩) ⟨hwaits, hedit⟩ (fun r hr hnot => absurd ?_ hnot)
      · rcases List.mem_cons.mp hr with rfl | hr
        · exact .inr (List.mem_singleton_self _)
        · exact .inl hr
      · rcases hr with hr | hr
        · exact List.mem_cons_of_mem _ hr
        · rw [List.mem_singleton.mp hr]
          exact List.mem_cons_self
    · cases hadv
      exact h.failed hopc (.inl rfl) hwaits
  | toReplace c new =>
    simp only [ConfigRun.advance] at hadv
    -- replacing it may fail, and then the change is to be undone
    cases ok with
    | true =>
      cases hadv
      exact h.replaced hopc hapart
    | false =>
      cases hadv
      exact h.failed hopc (.inr rfl) (h.fits call _ hopc).1
  | undo c =>
    have hwaits : s.Waits c := h.fits call _ hopc
    cases htrust : s.desk.trust with
    | none => cases c <;> simp [ConfigRun.advance, htrust] at hadv
    -- only the two changes of trust have something to put back
    | some t =>
      cases c with
      | trust name fp listed previous =>
        simp only [ConfigRun.advance, htrust, Option.map_some] at hadv
        cases hadv
        exact h.restored htrust hopc rfl hwaits.2.2
      | untrust name old =>
        simp only [ConfigRun.advance, htrust, Option.map_some] at hadv
        cases hadv
        exact h.restored htrust hopc rfl hwaits.2
      | _ => cases hadv
  | saved c =>
    -- saved: the hub, the desk or the list of screens is told
    cases c with
    | trust name fp listed previous => cases hadv; exact h.joined hopc
    | untrust name old =>
      cases hadv
      exact h.told hopc rfl rfl (Hub.send_frame _ _ _).1 fun _ => trivial
    | disable name disabled => cases hadv; exact h.turned hopc
    | layout positions sizes => cases hadv; exact h.positioned hopc
    | tuning t => cases hadv
  | sizing positions sizes => cases hadv; exact h.resized hopc
  | telling positions sizes =>
    cases hadv
    exact h.told hopc rfl rfl rfl fun _ => trivial
  | adding name =>
    cases hadv
    refine h.told hopc rfl rfl ?_ fun _ => trivial
    unfold Hub.addScreen
    split <;> rfl
  | returned ok => cases hadv

end Sections

/-! ## Every step

One lemma of those above for each place of a call. -/

/-- A step that changes nothing that is saved. -/
theorem SavedInv.unchanged (h : SavedInv s) (hfile : s'.file = s.file)
    (haccepted : s'.accepted = s.accepted) (hlayout : s'.desk.layout = s.desk.layout)
    (htrusted : ∀ n, s'.trusted n = s.trusted n)
    (hdisabled : s'.hub.disabled = s.hub.disabled)
    (hdesk : s'.desk.positions = s.desk.positions ∧ s'.desk.sizes = s.desk.sizes)
    (hcalls : s'.calls = s.calls) (hnext : s'.nextCall = s.nextCall) : SavedInv s' := by
  obtain ⟨hrecorded, hgrows⟩ := h.recorded.kept hfile haccepted hlayout
  exact h.aside hgrows hrecorded (fun r => Same.rfl_of hfile haccepted (fun n _ => htrusted n)
    (fun n _ => by rw [hdisabled]) fun _ => hdesk) hcalls hnext

/-- A revocation begins: nothing else is under way with the name, so memory and the record agree on
it, and the name leaves memory alone. -/
theorem SavedInv.revoke_step (h : SavedInv s) {name : String} (hapart : s.Apart (.revoke name))
    (hl : s.step (.revoke name) = some s') : SavedInv s' := by
  unfold ConfigRun.step at hl
  dsimp only at hl
  cases htrust : s.desk.trust with
  | none => rw [htrust] at hl; cases hl; exact h
  | some t =>
    have hmem : ∀ n, s.trusted n = t.trusted.get? n := fun n => by rw [trusted, htrust]; rfl
    rw [htrust] at hl
    simp only [Trust.revoke] at hl
    cases hold : t.trusted.get? name with
    -- a name that is not trusted: no call begins
    | none =>
      rw [hold] at hl
      cases hl
      refine h.unchanged rfl rfl rfl (fun n => ?_) rfl ⟨rfl, rfl⟩ rfl rfl
      rw [hmem]
      show (t.trusted.drop name).get? n = _
      rw [Dict.drop_of_none hold]
    | some old =>
      rw [hold] at hl
      cases hl
      have henters : s.enters (.revoke name) = [.trust name] := by
        show (if (s.trusted name).isSome then [Section.trust name] else []) = _
        rw [hmem, hold]
        rfl
      have hfree : ∀ r ∈ [Section.trust name], s.calls.All fun pc => r ∉ pc.sections :=
        henters ▸ hapart
      have heven : s.Even (.trust name) := h.even_of_free (hfree _ (List.mem_singleton_self _))
      have hgone : (t.trusted.drop name).get? name = none := by rw [Dict.get?_drop, if_pos rfl]
      refine h.begun rfl rfl rfl rfl rfl hfree (fun r hr => Same.rfl_of rfl rfl (fun n hn => ?_)
        (fun _ _ => Iff.rfl) fun _ => ⟨rfl, rfl⟩) ⟨hgone, ?_⟩
      · rw [hmem]
        refine (Dict.get?_drop _ _ _).trans (if_neg ?_)
        rintro rfl
        exact hr (hn ▸ List.mem_singleton_self _)
      · exact heven.symm.trans ((hmem name).trans hold)

/-- A layout is looked at and, if it passes, its change of the file begins. -/
theorem SavedInv.layout_step (h : SavedInv s) {requested : Dict String Point}
    {resized : Dict String (Option Size)} {hub : Hub ServerMsg}
    (hapart : s.Apart (.applyLayout requested resized hub))
    (hl : s.step (.applyLayout requested resized hub) = some s') : SavedInv s' := by
  have hlooked : (s.desk.screens hub).2 = { s.desk with known := (s.desk.screens hub).2.known } :=
    (s.desk.screens_learned hub).eq
  unfold ConfigRun.step at hl
  dsimp only at hl
  cases hvalid : s.desk.validate hub requested resized with
  | error e =>
    rw [hvalid] at hl
    cases hl
    refine h.unchanged rfl rfl ?_ (fun n => ?_) rfl ⟨?_, ?_⟩ rfl rfl
    · show (s.desk.screens hub).2.layout = _
      rw [hlooked]
    · show (s.desk.screens hub).2.trust.bind _ = _
      rw [hlooked]
      rfl
    · show (s.desk.screens hub).2.positions = _
      rw [hlooked]
    · show (s.desk.screens hub).2.sizes = _
      rw [hlooked]
  | ok checked =>
    obtain ⟨next, sizes⟩ := checked
    rw [hvalid] at hl
    cases hl
    have henters : s.enters (.applyLayout requested resized hub) = [.layout] := by
      simp only [enters, hvalid]
    have hfree : ∀ r ∈ [Section.layout], s.calls.All fun pc => r ∉ pc.sections :=
      henters ▸ hapart
    -- no other layout is under way, so memory and the record agree on it
    obtain ⟨hpositions, hsizes⟩ := h.even_of_free (hfree _ (List.mem_singleton_self _))
    obtain ⟨hwithin, hsized⟩ := DeskState.validate_within hvalid
    have hrec := h.recorded
    rw [hlooked]
    refine h.begun rfl rfl rfl rfl rfl hfree (fun r hr => Same.rfl_of rfl rfl (fun _ _ => rfl)
      (fun _ _ => Iff.rfl) fun _ => ⟨rfl, rfl⟩) ⟨⟨hpositions, hsizes⟩,
      fun n hn => (hwithin n).mp hn, fun n z hz => ?_, fun n hn => ?_⟩
    · rcases hsized n z hz with hwas | hnow
      · exact hrec.sized n z (hsizes ▸ hwas)
      · exact hnow
    · cases hp : s.accepted.positions n with
      | none => rfl
      | some p => exact absurd hn ((hwithin n).mpr (hrec.placed n (by simp [hp])))

/-- **What a step preserves.** -/
theorem SavedInv.step (h : SavedInv s) {l : AdminLabel} (hapart : s.Apart l)
    (hl : s.step l = some s') : SavedInv s' := by
  cases l with
  | approve name fp =>
    simp only [ConfigRun.step] at hl
    split at hl
    · cases hl; exact h
    · cases hl
      exact h.begun rfl rfl rfl rfl rfl (fun _ hr => absurd hr List.not_mem_nil)
        (fun r _ => Same.rfl_of rfl rfl (fun _ _ => rfl) (fun _ _ => Iff.rfl) fun _ => ⟨rfl, rfl⟩) id
  | revoke name => exact h.revoke_step hapart hl
  | setDisabled name disabled =>
    simp only [ConfigRun.step] at hl
    split at hl
    · cases hl; exact h
    · next hnot =>
      cases hl
      have hlisted : s.desk.layout.hasScreen name = true := by
        cases hhas : s.desk.layout.hasScreen name with
        | true => rfl
        | false => exact absurd (by simp [hhas]) hnot
      exact h.begun rfl rfl rfl rfl rfl (fun _ hr => absurd hr List.not_mem_nil)
        (fun r _ => Same.rfl_of rfl rfl (fun _ _ => rfl) (fun _ _ => Iff.rfl) fun _ => ⟨rfl, rfl⟩)
        hlisted
  | applyLayout requested resized hub => exact h.layout_step hapart hl
  | writeTuning t =>
    simp only [ConfigRun.step] at hl
    split at hl
    · cases hl
      exact h.begun rfl rfl rfl rfl rfl (fun _ hr => absurd hr List.not_mem_nil)
        (fun r _ => Same.rfl_of rfl rfl (fun _ _ => rfl) (fun _ _ => Iff.rfl) fun _ => ⟨rfl, rfl⟩)
        trivial
    · cases hl; exact h
  | go call ok =>
    simp only [ConfigRun.step] at hl
    split at hl
    · cases hl
    next opc hopc =>
    split at hl
    · next hadv => cases hl; exact h.advance hopc hapart hadv
    · cases hl
  | waiting pending =>
    simp only [ConfigRun.step] at hl
    split at hl
    · next t htrust =>
      cases hl
      refine h.unchanged rfl rfl rfl (fun n => ?_) rfl ⟨rfl, rfl⟩ rfl rfl
      rw [trusted, trusted, htrust]
      rfl
    · cases hl
  | traffic hub =>
    simp only [ConfigRun.step] at hl
    split at hl
    · next hdisabled =>
      cases hl
      exact h.unchanged rfl rfl rfl (fun _ => rfl) hdisabled ⟨rfl, rfl⟩ rfl rfl
    · cases hl

/-- Nothing has been changed at the start. -/
theorem savedInv_start (h : configRuns.init s) : SavedInv s := by
  obtain ⟨hvalid, hlisted, ⟨c, hparse, hagrees⟩, haccepted, hcalls⟩ := h
  obtain ⟨c', hparse', hsettings⟩ := ConfigFile.parse_valid hvalid
  rw [hparse] at hparse'
  cases hparse'
  -- a name with something in its table is a name of the layout
  have htable : ∀ {V : Type} (g : ScreenEntry → Option V) n,
      (s.file.table? n).bind g ≠ none → s.desk.layout.hasScreen n = true := by
    intro V g n hn
    refine (hlisted n).mpr (ConfigFile.mem_names_iff.mpr ?_)
    cases htab : s.file.table? n with
    | none => rw [htab] at hn; exact absurd rfl hn
    | some e => exact ⟨e, rfl⟩
  -- no call is under way
  have hnone : ∀ call pc, s.calls.get? call ≠ some pc := by
    intro call pc hpc
    rw [hcalls, Dict.get?_empty] at hpc
    cases hpc
  -- the settings accepted are those of the file, and memory agrees with them
  refine ⟨⟨hvalid, haccepted.symm, fun n hn => (hlisted n).mp hn, fun n hn => ?_, fun n z hz => ?_⟩,
    ?_, ?_, ?_, fun r => .inl ?_⟩
  · rw [haccepted] at hn
    exact htable _ n hn
  · rw [haccepted] at hz
    have hsome : (s.file.table? n).bind (·.size) = some z := hz
    refine ⟨htable (·.size) n (by rw [hsome]; nofun), ?_⟩
    obtain ⟨e, -, hsize⟩ := Option.bind_eq_some_iff.mp hz
    unfold ScreenEntry.size at hsize
    split at hsize
    · split at hsize
      · next hpos => cases hsize; exact hpos
      · cases hsize
    · cases hsize
  · exact fun call pc hpc => absurd hpc (hnone call pc)
  · exact fun call _ pc _ hpc => absurd hpc (hnone call pc)
  · exact fun call pc hpc => absurd hpc (hnone call pc)
  -- every section is even
  · rw [← hsettings] at haccepted
    cases r with
    | file => trivial
    | trust n =>
      show _ = s.accepted.trusted n
      rw [haccepted]
      exact (hagrees.trusted n).symm
    | disabled n =>
      show _ = s.accepted.disabled n
      rw [haccepted]
      exact decide_eq_decide.mpr (hagrees.disabled n).symm
    | layout =>
      show _ = s.accepted.positions ∧ _ = s.accepted.sizes
      rw [haccepted]
      exact ⟨funext fun n => (hagrees.positions n).symm, funext fun n => (hagrees.sizes n).symm⟩

end ConfigRun

/-- **So file, memory and record keep together in every state reached.** -/
theorem savedInv_reach {s : ConfigRun} (hs : configRuns.Reach ConfigRun.Apart s) :
    ConfigRun.SavedInv s :=
  hs.invariant (fun _ h => ConfigRun.savedInv_start h) fun _ _ _ _ ih hok hl => ih.step hok hl

/-- **The saved configuration follows the server**: in every run whose calls keep out of each
other's sections, once all calls have returned the file parses, it agrees with what is in memory, and
what it says is what it said at the start with every change that was saved, and no other. -/
theorem saved_config_follows {s : ConfigRun} (hs : configRuns.Reach ConfigRun.Apart s)
    (hsettled : s.Settled) :
    ∃ c, s.file.parse = .ok c ∧ s.Agrees c ∧ c.settings = s.accepted := by
  have hinv := savedInv_reach hs
  obtain ⟨c, hparse, hsettings⟩ := ConfigFile.parse_valid hinv.recorded.valid
  have hsettings : c.settings = s.accepted := hsettings.trans hinv.recorded.file
  -- a call that has returned is in no section
  have heven : ∀ r, s.Even r := by
    intro r
    refine hinv.even_of_free fun call pc hpc hr => ?_
    have hreturned := hsettled call pc hpc
    cases pc with
    | returned ok => cases hr
    | _ => cases hreturned
  refine ⟨c, hparse, ⟨fun n => ?_, fun n => ?_, fun n => ?_, fun n => ?_⟩, hsettings⟩
  · have haccepted : c.trusted.get? n = s.accepted.trusted n := by rw [← hsettings]; rfl
    exact haccepted.trans (heven (.trust n)).symm
  · have haccepted : decide (n ∈ c.disabled) = s.accepted.disabled n := by rw [← hsettings]; rfl
    exact decide_eq_decide.mp (haccepted.trans (heven (.disabled n)).symm)
  · have haccepted : c.positions.get? = s.accepted.positions := by rw [← hsettings]; rfl
    rw [haccepted, ← (heven .layout).1]
  · have haccepted : c.sizes.get? = s.accepted.sizes := by rw [← hsettings]; rfl
    rw [haccepted, ← (heven .layout).2]

/-! ## Calls apart, and calls that overlap -/

def fingerprintOf (n : Nat) : Fingerprint := ⟨BitVec.ofNat 256 n⟩

/-- "a" is the server's screen, "b" is trusted and "c" is not; "d" asks to be. -/
def threeScreensConfig : ConfigRun where
  file := { screens := [{ name := "a" }, { name := "b", fingerprint := some (fingerprintOf 1) },
    { name := "c" }] }
  desk :=
    { trust := some { trusted := Dict.put ∅ "b" (fingerprintOf 1)
                      pending := [⟨"d", fingerprintOf 2, "", none⟩] }
      local_ := "a", localMonitors := [⟨0, 0, 100, 100⟩], layout := { screens := ["a", "b", "c"] } }
  accepted := ConfigFile.settings
    { screens := [{ name := "a" }, { name := "b", fingerprint := some (fingerprintOf 1) },
      { name := "c" }] }

/-- A config of three screens is a start. -/
theorem threeScreensConfig_init : configRuns.init threeScreensConfig := by
  refine ⟨⟨by decide, by decide, nofun⟩, fun n => ?_, ⟨_, rfl, ?_⟩, rfl, rfl⟩
  · exact DeskState.hasScreen_iff
  · refine ⟨fun n => rfl, fun n => ?_, fun n => rfl, fun n => rfl⟩
    show n ∈ (∅ : Finset String) ↔ n ∈ (∅ : Finset String)
    exact Iff.rfl

/-- "b" is revoked while "d" is approved and joins, and "c" is turned off afterwards: all of it is
in the file. -/
theorem saved_config_follows_apart : ∃ s c, configRuns.Reach ConfigRun.Apart s ∧ s.Settled
    ∧ s.file.parse = .ok c ∧ s.Agrees c ∧ s.trusted "b" = none
    ∧ s.trusted "d" = some (fingerprintOf 2) ∧ "c" ∈ c.disabled := by
  let labels : List AdminLabel :=
    [.revoke "b", .approve "d" (fingerprintOf 2), .go 1 true, .go 0 true, .go 1 true, .go 0 true,
      .go 1 true, .go 1 true, .go 0 true, .go 1 true, .go 1 true, .setDisabled "c" true,
      .go 2 true, .go 2 true, .go 2 true]
  have hrun : (configRuns.exec ConfigRun.Apart threeScreensConfig labels).map (fun s =>
      (decide s.Settled, s.trusted "b", s.trusted "d", decide ("c" ∈ s.hub.disabled)))
      = some (true, none, some (fingerprintOf 2), true) := by
    decide +kernel
  obtain ⟨s, hs, hstate⟩ := Option.map_eq_some_iff.mp hrun
  simp only [Prod.mk.injEq, decide_eq_true_eq] at hstate
  obtain ⟨hsettled, hb, hd, hc⟩ := hstate
  have hreach : configRuns.Reach ConfigRun.Apart s := Lts.reach_of_exec threeScreensConfig_init hs
  obtain ⟨c, hparse, hagrees, -⟩ := saved_config_follows hreach hsettled
  exact ⟨s, c, hreach, hsettled, hparse, hagrees, hb, hd, (hagrees.disabled "c").mpr hc⟩

/-- The call that turns "c" off has read the file before "b" is revoked, and replaces it after: the
revoked certificate is back in the file. -/
theorem overlapping_saves_restore_revoked : ¬ ∀ s, configRuns.Reachable s → s.Settled →
    ∃ c, s.file.parse = .ok c ∧ s.Agrees c := by
  intro hall
  -- "c" is turned off from a file read before "b" was revoked, and written after
  let labels : List AdminLabel :=
    [.setDisabled "c" true, .go 0 true, .revoke "b", .go 1 true, .go 1 true, .go 1 true,
      .go 0 true, .go 0 true]
  have hrun : (configRuns.run threeScreensConfig labels).map (fun s =>
      (decide s.Settled, s.trusted "b",
        s.file.parse.toOption.bind fun c => c.trusted.get? "b"))
      = some (true, none, some (fingerprintOf 1)) := by
    decide +kernel
  obtain ⟨s, hs, hstate⟩ := Option.map_eq_some_iff.mp hrun
  simp only [Prod.mk.injEq, decide_eq_true_eq] at hstate
  obtain ⟨hsettled, hb, hfile⟩ := hstate
  have hreach : configRuns.Reachable s := Lts.reachable_of_run threeScreensConfig_init hs
  obtain ⟨c, hparse, hagrees⟩ := hall s hreach hsettled
  have hsaved : c.trusted.get? "b" = some (fingerprintOf 1) := by
    rw [hparse] at hfile
    exact hfile
  rw [hagrees.trusted, hb] at hsaved
  cases hsaved

end GeserDesk
