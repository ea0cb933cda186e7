import YieldStm32.Dev.Usb.Core

/-!
# Requests for data (`dev/src/usb_core.c`, `dev/src/usb_vcp.c`)

A request with the direction bit is answered with data or stalled. The device has descriptors, its configuration, its status,
the settings of its interfaces and the line coding; the virtual COM port is the only subscriber.

* `descriptor`, `Held` : what the device has, for a request;
* `Answered`, `Stalled`, `Correct` : what is wanted of a request;
* `Answerable` : the requests for which it is so, `correct_iff`;
* `Sound` : what each handler of `USBCore_ProcessSetupData` returns.
-/

namespace YieldStm32.Usb.Core

/-- `USB_SETUP_REQ_GET_DESCRIPTOR`, a standard request to the device. -/
def IsGetDescriptor (s : Setup) : Prop := s.type = 0x00 ∧ s.request = 0x06 ∧ s.recipient = 0x00

/-- The type and the index of a descriptor in a request. -/
def descType (s : Setup) : UInt8 := (s.value >>> 8).toUInt8

def descIndex (s : Setup) : UInt8 := s.value.toUInt8

/-- The descriptor of that type and index, if there is one: one for the device and one qualifier, with index zero. -/
def descriptor (descs : DescSet) (s : Setup) : Option Desc :=
  if descType s = 0x01 then
    if descIndex s = 0 then some descs.device else none
  else if descType s = 0x02 then
    descs.configs[(descIndex s).toNat]?
  else if descType s = 0x03 then
    descs.strings[(descIndex s).toNat]?
  else if descType s = 0x06 then
    if descIndex s = 0 then some descs.qualifier else none
  else
    none

/-- The first byte of a status: of the device, of an interface, of an endpoint. -/
def statusByte (s : Setup) (dev : Dev) : UInt8 :=
  if s.recipient = 0x00 then
    dev.status.toUInt8
  else if s.recipient = 0x02 then
    let epHalt := if s.index.toUInt8 &&& 0x80 ≠ 0 then dev.epHaltTx.toUInt8 else dev.epHaltRx.toUInt8
    if epHalt.toNat &&& (1 <<< (s.index.toUInt8 &&& 0x7f).toNat) ≠ 0 then 1 else 0
  else
    0

/-- An object the device has for a request, where it is, and its size. -/
inductive Held (descs : DescSet) (s : Setup) (dev : Dev) (m : Block → Nat → UInt8) : Ptr → Nat → Prop
  | descriptor {desc : Desc} (hs : IsGetDescriptor s) (h : descriptor descs s = some desc) :
      Held descs s dev m desc.ptr desc.size.toNat
  | configuration (hs : s.request = 0x08) (h : m .buf 0 = dev.configuration.toUInt8) : Held descs s dev m ⟨.buf, 0⟩ 1
  | status (hs : s.request = 0x00) (h : m .buf 0 = statusByte s dev) (hhigh : m .buf 1 = 0) : Held descs s dev m ⟨.buf, 0⟩ 2
  | setting (hs : s.request = 0x0a) (h : m .buf 0 = (dev.alternateSettings s.index.toUInt8.toNat).toUInt8) :
      Held descs s dev m ⟨.buf, 0⟩ 1
  | lineCoding : Held descs s dev m ⟨.le, 0⟩ 7

variable {σ : Type*}

/-- The data stage to the host is begun with these data. -/
def Begins (c c' : Core σ) (ptr : Ptr) (size : UInt32) : Prop :=
  c'.ctlPtr = ptr ∧ c'.ctlSize = size ∧ c'.ctlOffset = 0 ∧
    c'.calls = c.calls ++ [.startIN ptr (min ctrlepSize size) .dataIN, .startOUT .null 0 .statusOUT]

/-- At most `wLength` bytes of an object the device has are sent. -/
def Answered (descs : DescSet) (s : Setup) (c c' : Core σ) : Prop :=
  ∃ ptr size, Begins c c' ptr size ∧ size.toNat ≤ s.length.toNat ∧ ∃ n, Held descs s c.dev c'.mem ptr n ∧ size.toNat ≤ n

/-- Endpoint 0 is stalled. -/
def Stalled (c c' : Core σ) : Prop :=
  c'.calls = c.calls ++ [.stallIN, .stallOUT, .startSETUP ⟨.ctlSetup, 0⟩ 24 .setup]

/-- What is wanted of a request. -/
structure Correct (descs : DescSet) (s : Setup) (c c' : Core σ) : Prop where
  outcome : Answered descs s c c' ∨ Stalled c c'
  missing : IsGetDescriptor s → descriptor descs s = none → Stalled c c'

/-- No request for a descriptor that is missing among those of its type, none for the line coding with less room than it has
bytes, and no `SET_CONTROL_LINE_STATE`. -/
structure Answerable (descs : DescSet) (s : Setup) : Prop where
  exists_descriptor : IsGetDescriptor s → descType s ∈ ([0x01, 0x02, 0x03, 0x06] : List UInt8) → descriptor descs s ≠ none
  lineCoding : s.request = 0x20 ∨ s.request = 0x21 → 7 ≤ s.length.toNat
  lineState : s.request ≠ 0x22

/-! ## The stages -/

theorem begins_startDataINStage (ptr : Ptr) (size : UInt32) (c : Core σ) :
    Begins c (startDataINStage ptr size c) ptr size := ⟨rfl, rfl, rfl, List.append_assoc ..⟩

theorem stalled_abortStage (c : Core σ) : Stalled c c.abortStage := by
  simp [Stalled, abortStage, startSETUPStage, startSETUPTransfer, call]

/-- A request is answered or stalled, not both: the last call tells. -/
theorem Begins.not_stalled {c c₁ c' : Core σ} {ptr : Ptr} {size : UInt32} (h : Begins c₁ c' ptr size) : ¬ Stalled c c' := by
  intro hs
  have hlast := congrArg List.getLast? (h.2.2.2.symm.trans hs)
  rw [List.getLast?_append, List.getLast?_append] at hlast
  exact DriverCall.noConfusion (Option.some.inj hlast)

/-! ## The handlers -/

/-- What a handler returns: an error, or data the device has. -/
structure Sound (descs : DescSet) (s : Setup) (c : Core σ) (reply : Reply σ) : Prop where
  calls : reply.core.calls = c.calls
  held : reply.rc = eok → reply.size.toNat ≤ s.length.toNat ∧
    ∃ n, Held descs s c.dev reply.core.mem reply.ptr n ∧ reply.size.toNat ≤ n

variable {descs : DescSet} {s : Setup} {c : Core σ}

theorem efatal_ne_eok : efatal ≠ eok := by decide

/-- An error is sound, whatever else is returned. -/
theorem sound_of_efatal {reply : Reply σ} (hcalls : reply.core.calls = c.calls) (hrc : reply.rc = efatal) :
    Sound descs s c reply := ⟨hcalls, fun h => absurd (hrc.symm.trans h) efatal_ne_eok⟩

theorem sound_efatal : Sound descs s c ⟨efatal, .null, 0, c⟩ := sound_of_efatal rfl rfl

theorem sound_getConfiguration (hs : s.request = 0x08) : Sound descs s c (processSetupGetConfiguration s c) := by
  unfold processSetupGetConfiguration
  split
  · rename_i h
    refine ⟨rfl, fun _ => ⟨?_, 1, .configuration hs rfl, Nat.le_refl 1⟩⟩
    rw [h.2.1.2.2]
    exact Nat.le_refl 1
  · exact sound_efatal

theorem sound_getInterface (hs : s.request = 0x0a) : Sound descs s c (processSetupGetInterface descs s c) := by
  unfold processSetupGetInterface
  dsimp only
  split
  · exact sound_efatal
  · rename_i hframe
    split
    · refine ⟨rfl, fun _ => ⟨?_, 1, .setting hs rfl, Nat.le_refl 1⟩⟩
      rw [not_not.1 (not_or.1 hframe).2]
      exact Nat.le_refl 1
    · exact sound_efatal

theorem sound_getStatus (hs : s.request = 0x00) : Sound descs s c (processSetupGetStatus descs s c) := by
  have hreply : ∀ x : UInt8, ¬ (s.value ≠ 0 ∨ s.length ≠ 2) → x = statusByte s c.dev →
      Sound descs s c ⟨eok, ⟨.buf, 0⟩, 2, c.setBuf x 0⟩ := by
    rintro x hframe rfl
    refine ⟨rfl, fun _ => ⟨?_, 2, .status hs rfl rfl, Nat.le_refl 2⟩⟩
    rw [not_not.1 (not_or.1 hframe).2]
    exact Nat.le_refl 2
  unfold processSetupGetStatus
  split
  · exact sound_efatal
  · rename_i hframe
    split
    · rename_i hdevice
      split
      · exact hreply _ hframe (if_pos hdevice).symm
      · exact sound_efatal
    · rename_i hdevice
      split
      · rename_i hiface
        split
        · refine hreply _ hframe ?_
          rw [statusByte, if_neg hdevice, if_neg (by rw [hiface]; decide)]
        · exact sound_efatal
      · split
        · rename_i hep
          dsimp only
          split
          · refine hreply _ hframe ?_
            rw [statusByte, if_neg hdevice, if_pos hep]
          · exact sound_efatal
        · exact sound_efatal

/-- The code looks the descriptor up by its type, and by its index where there are several. -/
theorem deviceDescriptor_of_some {desc : Desc} (h : descriptor descs s = some desc) :
    deviceDescriptor descs s = some (some desc) := by
  unfold descriptor at h
  unfold deviceDescriptor
  dsimp only
  split at h
  · rename_i htype
    rw [show (s.value >>> 8).toUInt8 = 0x01 from htype]
    split at h
    · rw [← h]
      rfl
    · cases h
  · split at h
    · rename_i htype
      rw [show (s.value >>> 8).toUInt8 = 0x02 from htype]
      exact congrArg some h
    · split at h
      · rename_i htype
        rw [show (s.value >>> 8).toUInt8 = 0x03 from htype]
        exact congrArg some h
      · split at h
        · rename_i htype
          rw [show (s.value >>> 8).toUInt8 = 0x06 from htype]
          split at h
          · rw [← h]
            rfl
          · cases h
        · cases h

/-- A type it knows is never an error. -/
theorem deviceDescriptor_known (h : descType s ∈ ([0x01, 0x02, 0x03, 0x06] : List UInt8)) :
    ∃ o, deviceDescriptor descs s = some o := by
  unfold deviceDescriptor
  dsimp only
  rcases List.mem_cons.1 h with h | h
  · rw [show (s.value >>> 8).toUInt8 = 0x01 from h]
    exact ⟨_, rfl⟩
  rcases List.mem_cons.1 h with h | h
  · rw [show (s.value >>> 8).toUInt8 = 0x02 from h]
    exact ⟨_, rfl⟩
  rcases List.mem_cons.1 h with h | h
  · rw [show (s.value >>> 8).toUInt8 = 0x03 from h]
    exact ⟨_, rfl⟩
  · rw [show (s.value >>> 8).toUInt8 = 0x06 from List.mem_singleton.1 h]
    exact ⟨_, rfl⟩

theorem deviceDescriptor_unknown (h : descType s ∉ ([0x01, 0x02, 0x03, 0x06] : List UInt8)) :
    deviceDescriptor descs s = none := by
  have hne : ∀ t : UInt8, t ∈ ([0x01, 0x02, 0x03, 0x06] : List UInt8) → (s.value >>> 8).toUInt8.toNat ≠ t.toNat :=
    fun t ht heq => h (by rw [descType, UInt8.toNat_inj.1 heq]; exact ht)
  unfold deviceDescriptor
  dsimp only
  split
  · exact absurd ‹_› (hne 0x01 (by decide))
  · exact absurd ‹_› (hne 0x02 (by decide))
  · exact absurd ‹_› (hne 0x03 (by decide))
  · exact absurd ‹_› (hne 0x06 (by decide))
  · rfl

section Vcp

variable {c : Core Unit}

/-- The virtual COM port leaves other requests alone. -/
theorem requestCallback_other {a : ReqEvArg} (h20 : a.setup.request ≠ 0x20) (h21 : a.setup.request ≠ 0x21)
    (h22 : a.setup.request ≠ 0x22) (u : Unit) : requestCallback u a = ((), a) := by
  unfold requestCallback
  split
  · exact absurd (UInt8.toNat_inj.1 ‹_›) h20
  · exact absurd (UInt8.toNat_inj.1 ‹_›) h21
  · exact absurd (UInt8.toNat_inj.1 ‹_›) h22
  · rfl

/-- It gives out the line coding, whichever way the data go. -/
theorem requestCallback_lineCoding {a : ReqEvArg} (h : a.setup.request = 0x20 ∨ a.setup.request = 0x21)
    (hnull : a.ptr = .null) (u : Unit) :
    requestCallback u a = ((), { a with ptr := ⟨.le, 0⟩, size := 7, status := eok }) := by
  unfold requestCallback
  rcases h with h | h
  · rw [h]
    exact if_pos hnull
  · rw [h]
    rfl

theorem requestCallback_lineState {a : ReqEvArg} (h : a.setup.request = 0x22) (u : Unit) :
    requestCallback u a = ((), { a with status := eok }) := by
  unfold requestCallback
  rw [h]
  rfl

theorem sound_getDescriptor (htype : s.type = 0x00) (hs : s.request = 0x06)
    (hex : IsGetDescriptor s → descType s ∈ ([0x01, 0x02, 0x03, 0x06] : List UInt8) → descriptor descs s ≠ none) :
    Sound descs s c (processSetupGetDescriptor requestCallback descs s c) := by
  unfold processSetupGetDescriptor
  dsimp only
  split
  · rename_i hdevice
    have hget : IsGetDescriptor s := ⟨htype, hs, hdevice⟩
    by_cases hknown : descType s ∈ ([0x01, 0x02, 0x03, 0x06] : List UInt8)
    · obtain ⟨desc, hdesc⟩ := Option.ne_none_iff_exists'.1 (hex hget hknown)
      rw [deviceDescriptor_of_some hdesc]
      refine ⟨rfl, fun _ => ⟨?_, _, .descriptor hget hdesc, ?_⟩⟩
      · show (min desc.size s.length.toUInt32).toNat ≤ _
        rw [toNat_min, UInt16.toNat_toUInt32]
        exact Nat.min_le_right ..
      · show (min desc.size s.length.toUInt32).toNat ≤ _
        rw [toNat_min]
        exact Nat.min_le_left ..
    · rw [deviceDescriptor_unknown hknown]
      exact sound_of_efatal rfl rfl
  · split
    · have hcall := @requestCallback_other ⟨s, efatal, .null, 0⟩ (by rw [hs]; decide) (by rw [hs]; decide)
        (by rw [hs]; decide) c.subs
      unfold notify
      rw [hcall]
      exact sound_of_efatal rfl rfl
    · exact sound_of_efatal rfl rfl

/-- Every handler returns an error, or data the device has. -/
theorem sound_standardData
    (hex : IsGetDescriptor s → descType s ∈ ([0x01, 0x02, 0x03, 0x06] : List UInt8) → descriptor descs s ≠ none) :
    Sound descs s c (standardData requestCallback descs s c) := by
  unfold standardData
  split
  · rename_i htype
    split
    · exact sound_getDescriptor htype.1 (UInt8.toNat_inj.1 ‹_›) hex
    · exact sound_getConfiguration (UInt8.toNat_inj.1 ‹_›)
    · exact sound_getStatus (UInt8.toNat_inj.1 ‹_›)
    · exact sound_getInterface (UInt8.toNat_inj.1 ‹_›)
    · exact sound_efatal
  · exact sound_efatal

/-- A request for a descriptor of the device goes by its type. -/
theorem standardData_getDescriptor (hdir : s.dirIn = true) (hget : IsGetDescriptor s) :
    (standardData requestCallback descs s c).rc = if (deviceDescriptor descs s).isSome then eok else efatal := by
  unfold standardData
  rw [if_pos ⟨hget.1, hdir⟩, hget.2.1]
  show (processSetupGetDescriptor requestCallback descs s c).rc = _
  unfold processSetupGetDescriptor
  rw [if_pos hget.2.2]
  cases deviceDescriptor descs s with
  | none => rfl
  | some o =>
      cases o with
      | none => rfl
      | some desc => rfl

/-- Requests of the virtual COM port are no standard requests. -/
theorem standardData_vcp (h : s.request = 0x20 ∨ s.request = 0x21 ∨ s.request = 0x22) :
    standardData requestCallback descs s c = ⟨efatal, .null, 0, c⟩ := by
  unfold standardData
  rcases h with h | h | h
  · rw [h]
    exact ite_self _
  · rw [h]
    exact ite_self _
  · rw [h]
    exact ite_self _

theorem processSetupData_in (hdir : s.dirIn = true) (c : Core Unit) :
    processSetupData requestCallback descs s c =
      let reply := standardData requestCallback descs s c
      let (arg, c) := reply.core.notify requestCallback ⟨s, reply.rc, reply.ptr, reply.size⟩
      if arg.status = eok then c.startDataINStage arg.ptr arg.size else c.abortStage := by
  unfold processSetupData
  rw [hdir]
  rfl

/-! ## Outcomes -/

theorem begins_lineCoding (hdir : s.dirIn = true) (h : s.request = 0x20 ∨ s.request = 0x21) :
    Begins c (processSetupData requestCallback descs s c) ⟨.le, 0⟩ 7 := by
  have hcall := @requestCallback_lineCoding ⟨s, efatal, .null, 0⟩ h rfl c.subs
  rw [processSetupData_in hdir, standardData_vcp (by tauto)]
  unfold notify
  dsimp only
  rw [hcall]
  exact begins_startDataINStage _ _ { c with notes := c.notes ++ [⟨s, efatal, .null, 0⟩] }

theorem begins_lineState (hdir : s.dirIn = true) (h : s.request = 0x22) :
    Begins c (processSetupData requestCallback descs s c) .null 0 := by
  have hcall := @requestCallback_lineState ⟨s, efatal, .null, 0⟩ h c.subs
  rw [processSetupData_in hdir, standardData_vcp (Or.inr (Or.inr h))]
  unfold notify
  dsimp only
  rw [hcall]
  exact begins_startDataINStage _ _ { c with notes := c.notes ++ [⟨s, efatal, .null, 0⟩] }

/-- Other requests go as their handler says. -/
theorem outcome_other (hdir : s.dirIn = true) (h20 : s.request ≠ 0x20) (h21 : s.request ≠ 0x21) (h22 : s.request ≠ 0x22) :
    let reply := standardData requestCallback descs s c
    let c' := processSetupData requestCallback descs s c
    (reply.rc = eok → Begins reply.core c' reply.ptr reply.size ∧ c'.mem = reply.core.mem) ∧
      (reply.rc ≠ eok → Stalled reply.core c') := by
  intro reply c'
  have hcall := @requestCallback_other ⟨s, reply.rc, reply.ptr, reply.size⟩ h20 h21 h22 reply.core.subs
  have hc' : c' =
      let c₁ := { reply.core with notes := reply.core.notes ++ [ReqEvArg.mk s reply.rc reply.ptr reply.size] }
      if reply.rc = eok then c₁.startDataINStage reply.ptr reply.size else c₁.abortStage := by
    show processSetupData requestCallback descs s c = _
    rw [processSetupData_in hdir]
    unfold notify
    dsimp only
    rw [hcall]
  rw [hc']
  refine ⟨fun h => ?_, fun h => ?_⟩
  · rw [if_pos h]
    exact ⟨begins_startDataINStage _ _ { reply.core with notes := _ }, rfl⟩
  · rw [if_neg h]
    exact stalled_abortStage { reply.core with notes := _ }

/-- A descriptor is somewhere. -/
theorem descriptor_ne_null {desc : Desc} (h : descriptor usbDescriptors s = some desc) : desc.ptr ≠ .null := by
  have hconfigs : ∀ d ∈ usbDescriptors.configs, d.ptr ≠ .null := by decide
  have hstrings : ∀ d ∈ usbDescriptors.strings, d.ptr ≠ .null := by decide
  have hknown := deviceDescriptor_of_some h
  unfold deviceDescriptor at hknown
  dsimp only at hknown
  split at hknown
  · obtain rfl := Option.some.inj (Option.some.inj hknown)
    decide
  · exact hconfigs desc (List.mem_of_getElem? (Option.some.inj hknown))
  · exact hstrings desc (List.mem_of_getElem? (Option.some.inj hknown))
  · obtain rfl := Option.some.inj (Option.some.inj hknown)
    decide
  · cases hknown

theorem Held.ne_null {dev : Dev} {m : Block → Nat → UInt8} {ptr : Ptr} {n : Nat} (h : Held usbDescriptors s dev m ptr n) :
    ptr ≠ .null := by
  cases h with
  | descriptor _ hdesc => exact descriptor_ne_null hdesc
  | configuration => decide
  | status => decide
  | setting => decide
  | lineCoding => decide

theorem correct_of_answerable (hdir : s.dirIn = true) (h : Answerable descs s) :
    Correct descs s c (processSetupData requestCallback descs s c) := by
  by_cases hline : s.request = 0x20 ∨ s.request = 0x21
  · -- the line coding, for a request that has room for it
    have hmissing : ¬ IsGetDescriptor s := fun hget => by
      rw [hget.2.1] at hline
      exact absurd hline (by decide)
    exact ⟨Or.inl ⟨_, _, begins_lineCoding hdir hline, h.lineCoding hline, 7, .lineCoding, Nat.le_refl 7⟩,
      fun hget => absurd hget hmissing⟩
  · obtain ⟨h20, h21⟩ := not_or.1 hline
    obtain ⟨hbegins, hstalled⟩ := @outcome_other descs s c hdir h20 h21 h.lineState
    have hsound : Sound descs s c (standardData requestCallback descs s c) := sound_standardData h.exists_descriptor
    have hcalls : ∀ c', Stalled (standardData requestCallback descs s c).core c' → Stalled c c' := by
      intro c' hs
      rwa [Stalled, hsound.calls] at hs
    by_cases hrc : (standardData requestCallback descs s c).rc = eok
    · obtain ⟨⟨hptr, hsize, hoffset, hlog⟩, hmem⟩ := hbegins hrc
      rw [hsound.calls] at hlog
      obtain ⟨hle, n, hheld, hn⟩ := hsound.held hrc
      rw [← hmem] at hheld
      refine ⟨Or.inl ⟨_, _, ⟨hptr, hsize, hoffset, hlog⟩, hle, n, hheld, hn⟩, fun hget hnone => ?_⟩
      -- a missing descriptor has a type the code does not know
      have hunknown := @deviceDescriptor_unknown descs s fun hknown => h.exists_descriptor hget hknown hnone
      rw [standardData_getDescriptor hdir hget, hunknown] at hrc
      exact absurd hrc efatal_ne_eok
    · exact ⟨Or.inr (hcalls _ (hstalled hrc)), fun _ _ => hcalls _ (hstalled hrc)⟩

theorem answerable_of_correct (hdir : s.dirIn = true)
    (h : Correct usbDescriptors s c (processSetupData requestCallback usbDescriptors s c)) :
    Answerable usbDescriptors s where
  exists_descriptor hget hknown hnone := by
    have hstalled := h.missing hget hnone
    have hne : ∀ t : UInt8, t ≠ 0x06 → s.request ≠ t := fun t ht heq => ht (heq.symm.trans hget.2.1)
    obtain ⟨hbegins, -⟩ := @outcome_other usbDescriptors s c hdir (hne _ (by decide)) (hne _ (by decide)) (hne _ (by decide))
    obtain ⟨o, ho⟩ := @deviceDescriptor_known usbDescriptors s hknown
    have hrc : (standardData requestCallback usbDescriptors s c).rc = eok := by
      rw [standardData_getDescriptor hdir hget, ho]
      rfl
    exact (hbegins hrc).1.not_stalled hstalled
  lineCoding hline := by
    have hbegins := @begins_lineCoding usbDescriptors s c hdir hline
    obtain ⟨ptr, size, hb, hle, -⟩ := h.outcome.resolve_right hbegins.not_stalled
    have hsize : size = 7 := hb.2.1.symm.trans hbegins.2.1
    rw [hsize] at hle
    exact hle
  lineState hline := by
    have hbegins := @begins_lineState usbDescriptors s c hdir hline
    obtain ⟨ptr, size, hb, -, n, hheld, -⟩ := h.outcome.resolve_right hbegins.not_stalled
    exact hheld.ne_null (hb.1.symm.trans hbegins.1)

/-- **Which requests are answered or stalled as they should be**: in every state of the device, those and only those that do
not ask for a descriptor that is missing among those of its type, nor for the line coding in less than seven bytes, and are
not `SET_CONTROL_LINE_STATE`. -/
theorem correct_iff (s : Setup) (c : Core Unit) (hdir : s.dirIn = true) (hdata : s.length ≠ 0) :
    Correct usbDescriptors s c (processSetup requestCallback usbDescriptors s c) ↔ Answerable usbDescriptors s := by
  have hrun : processSetup requestCallback usbDescriptors s c = processSetupData requestCallback usbDescriptors s c :=
    if_neg hdata
  rw [hrun]
  exact ⟨answerable_of_correct hdir, correct_of_answerable hdir⟩

/-- `GET_DESCRIPTOR` for the device descriptor. -/
theorem correct_iff_device :
    Correct usbDescriptors ⟨0x80, 0x06, 0x0100, 0, 18⟩ idle
      (processSetup requestCallback usbDescriptors ⟨0x80, 0x06, 0x0100, 0, 18⟩ idle) :=
  (correct_iff _ _ (by decide) (by decide)).2 ⟨fun _ _ => by decide, by decide, by decide⟩

/-- `GET_DESCRIPTOR` for a fifth string: an empty data stage. -/
theorem not_correct_string :
    ¬ Correct usbDescriptors ⟨0x80, 0x06, 0x0304, 0x0409, 255⟩ idle
      (processSetup requestCallback usbDescriptors ⟨0x80, 0x06, 0x0304, 0x0409, 255⟩ idle) := by
  intro h
  have hstalled := h.missing ⟨by decide, by decide, by decide⟩ (by rfl)
  exact absurd (show _ = _ from hstalled) (by decide)

end Vcp

end YieldStm32.Usb.Core
