import Herak.Ota.UpdateRule

/-!
# From write callbacks to flash pages

The write callbacks of a download cut a stream of bytes into fragments, and the
update half cuts it again into flash pages.  What the SHA-256 context was fed,
followed by the page buffer, is at any time the stream that the callbacks have
read; this is the whole stream exactly if no fragment is a chain of segments.
-/

namespace Herak.Ota

open CInt CString Memory

/-! ## The page buffer -/

/-- The page buffer is a page, and no more than full. -/
structure PageInv (u : OtaUpdate) : Prop where
  length : u.buff.length = buffSize
  count : u.buffP ≤ buffSize

variable {u u' : OtaUpdate} {d : Device}

theorem PageInv.cleared (h : PageInv u) (hbuff : u'.buff = memset u.buff 0 buffSize)
    (hcount : u'.buffP = 0) : PageInv u' := by
  refine ⟨?_, hcount ▸ Nat.zero_le _⟩
  rw [hbuff, length_memset 0 h.length.ge, h.length]

theorem pageInv_rule : UpdateRule fun u _ => PageInv u where
  reset := fun h => h.cleared rfl rfl
  opened := fun h _ => h.cleared rfl rfl
  copied := fun data h hfits => by
    have hcount := h.count
    have hlength := h.length
    refine ⟨(length_memcpy ?_).trans hlength, ?_⟩
    · omega
    · dsimp only
      omega
  committed := fun outcome h => by
    cases outcome with
    | ok => exact h.cleared rfl rfl
    | flashError => exact h
    | shaError => exact h
  ready := fun h _ => ⟨h.length, h.count⟩
  validated := fun _ h _ _ => ⟨h.length, h.count⟩
  rebooted := fun h => h
  started := fun _ h _ => ⟨h.length, h.count⟩
  file := fun _ h => ⟨h.length, h.count⟩
  shaVerify := fun _ h => ⟨h.length, h.count⟩

/-! ## The flash and the SHA-256 context -/

/-- The bytes that the SHA-256 context was fed are at the start of the slot, and
`flash_offset` counts them, as long as its type can. -/
def ImageInv (u : OtaUpdate) (d : Device) : Prop :=
  u.sha.length < 2 ^ 32 →
    u.flashOffset = u.sha.length ∧
      ∀ k < u.sha.length, d.slot.bytes k = u.sha[k]?

theorem Slot.program_bytes (s : Slot) (off : ℕ) (data : List UInt8) (k : ℕ) :
    (s.program off data).bytes k =
      if off ≤ k ∧ k < off + data.length then data[k - off]?
      else s.bytes k :=
  rfl

theorem imageInv_empty {u : OtaUpdate} {d : Device} (hsha : u.sha = [])
    (hoffset : u.flashOffset = 0) : ImageInv u d := by
  intro _
  simp [hsha, hoffset]

theorem imageInv_commit (hpage : PageInv u) (h : ImageInv u d)
    (outcome : CommitOutcome) :
    ImageInv (otaBuffCommit u d u.buffP outcome).2.1
      (otaBuffCommit u d u.buffP outcome).2.2 := by
  have hlength := hpage.length
  have hcount := hpage.count
  cases outcome with
  | flashError => exact h
  | shaError =>
      intro hlt
      obtain ⟨hoffset, hbytes⟩ := h hlt
      refine ⟨hoffset, fun k hk => ?_⟩
      simp only [otaBuffCommit] at hk ⊢
      rw [Slot.program_bytes, if_neg (by omega)]
      exact hbytes k hk
  | ok =>
      intro hlt
      simp only [otaBuffCommit, List.length_append, List.length_take] at hlt ⊢
      obtain ⟨hoffset, hbytes⟩ := h (by omega)
      refine ⟨?_, fun k hk => ?_⟩
      · rw [hoffset]
        unfold toUInt32
        omega
      · rw [Slot.program_bytes, List.getElem?_append]
        by_cases hold : k < u.sha.length
        · rw [if_neg (by omega), if_pos hold]
          exact hbytes k hold
        · rw [if_pos (by omega), if_neg hold, hoffset,
            List.getElem?_take_of_lt (by omega)]

theorem imageInv_rule : UpdateRule fun u d => PageInv u ∧ ImageInv u d where
  reset := fun {_ d} h =>
    ⟨pageInv_rule.reset (d := d) h.1, imageInv_empty rfl rfl⟩
  opened := fun {_ d} h hstarted =>
    ⟨pageInv_rule.opened (d := d) h.1 hstarted, imageInv_empty rfl rfl⟩
  copied := fun {_ d} data h hfits =>
    ⟨pageInv_rule.copied (d := d) data h.1 hfits, h.2⟩
  committed := fun {_ d} outcome h =>
    ⟨pageInv_rule.committed (d := d) outcome h.1,
      imageInv_commit h.1 h.2 outcome⟩
  ready := fun h _ => ⟨⟨h.1.length, h.1.count⟩, h.2⟩
  validated := fun _ h _ _ => ⟨⟨h.1.length, h.1.count⟩, h.2⟩
  rebooted := fun h => h
  started := fun _ h _ => ⟨⟨h.1.length, h.1.count⟩, h.2⟩
  file := fun _ h => ⟨⟨h.1.length, h.1.count⟩, h.2⟩
  shaVerify := fun _ h => ⟨⟨h.1.length, h.1.count⟩, h.2⟩

variable {fw : Firmware} {sha256 : List UInt8 → List UInt8} {s : OtaSystem}

theorem imageInv_step (h : PageInv s.update ∧ ImageInv s.update s.device)
    {e : OtaEvent} (he : s.Enabled e) :
    PageInv (s.step fw sha256 e).update ∧
      ImageInv (s.step fw sha256 e).update (s.step fw sha256 e).device := by
  refine imageInv_rule.step h he fun _ => ?_
  obtain ⟨hpage, himage⟩ := imageInv_rule.reset h
  exact ⟨⟨hpage.length, hpage.count⟩, himage⟩

theorem imageInv_along {d : Device} {es : List OtaEvent}
    (hes : (OtaSystem.machine fw sha256).Admits (sysOtaInit fw d) es) :
    PageInv ((OtaSystem.machine fw sha256).run (sysOtaInit fw d) es).update ∧
      ImageInv ((OtaSystem.machine fw sha256).run (sysOtaInit fw d) es).update
        ((OtaSystem.machine fw sha256).run (sysOtaInit fw d) es).device := by
  have hinit : PageInv OtaUpdate.init :=
    ⟨List.length_replicate, Nat.zero_le _⟩
  exact EventMachine.Along.invariant
    (I := fun s => PageInv s.update ∧ ImageInv s.update s.device)
    (fun _ _ h he => imageInv_step h he) hes
    (imageInv_rule.reset ⟨hinit, imageInv_empty rfl rfl⟩)

/-! ## One download -/

/-- A download in progress has read `stream`: whole pages of it are in the
flash and in the SHA-256 context, the rest is in the page buffer. -/
structure Written (u : OtaUpdate) (d : Device) (stream : List UInt8) : Prop
    where
  progress : u.inProgress = true
  page : PageInv u
  image : ImageInv u d
  split : u.sha ++ u.buff.take u.buffP = stream
  pages : buffSize ∣ u.sha.length
  room : u.buffP < buffSize
  clear : ∀ k, u.buffP ≤ k → k < buffSize → u.buff[k]? = some 0
  beyond : u.sha.length < 2 ^ 32 →
    ∀ k, u.sha.length ≤ k → d.slot.bytes k = none
  offset : u.flashOffset < 2 ^ 32

variable {stream : List UInt8}

theorem written_opened (hpage : PageInv u) (hstarted : u.started ≠ 0) :
    Written
      { u with
        sha := []
        buffP := 0
        flashOffset := 0
        buff := memset u.buff 0 buffSize
        inProgress := true }
      { d with
        slot := Slot.clear
        jobState := Commands.sysJobStateSet d.jobState Commands.otaJob } [] where
  progress := rfl
  page := pageInv_rule.opened (d := d) hpage hstarted
  image := imageInv_empty rfl rfl
  split := by simp
  pages := dvd_zero _
  room := (by decide : 0 < buffSize)
  clear := fun k _ hk => by rw [getElem?_memset, if_pos hk]
  beyond := fun _ _ _ => rfl
  offset := (by decide : 0 < 2 ^ 32)

theorem Written.copied (h : Written u d stream) {data : List UInt8}
    (hfits : data.length + u.buffP < buffSize) :
    Written
      { u with
        buff := memcpy u.buff u.buffP data
        buffP := u.buffP + data.length } d (stream ++ data) where
  progress := h.progress
  page := pageInv_rule.copied (d := d) data h.page (by omega)
  image := h.image
  split := by
    have hlength := h.page.length
    rw [take_memcpy (by omega), ← List.append_assoc, h.split]
  pages := h.pages
  room := by
    dsimp only
    omega
  clear := fun k hge hk => by
    have hlength := h.page.length
    dsimp only at hge ⊢
    rw [getElem?_memcpy (by omega), if_neg (by omega), if_neg (by omega)]
    exact h.clear k (by omega) hk
  beyond := h.beyond
  offset := h.offset

/-- The copy that fills the page is followed by its commit. -/
theorem Written.filled (h : Written u d stream) (data : List UInt8)
    (hfits : data.length + u.buffP = buffSize) :
    let u' := { u with
      buff := memcpy u.buff u.buffP data
      buffP := u.buffP + data.length }
    Written (otaBuffCommit u' d u'.buffP .ok).2.1
      (otaBuffCommit u' d u'.buffP .ok).2.2 (stream ++ data) := by
  intro u'
  have hlength := h.page.length
  have hpage : PageInv u' :=
    pageInv_rule.copied (d := d) data h.page (by omega)
  have htake : u'.buff.take u'.buffP = u.buff.take u.buffP ++ data :=
    take_memcpy (by omega)
  have hsize : u'.buffP = buffSize := by
    dsimp only [u']
    omega
  refine ⟨h.progress, pageInv_rule.committed (d := d) .ok hpage,
    imageInv_commit hpage h.image .ok, ?_, ?_, ?_, fun k _ hk => ?_,
    fun hlt k hk => ?_, ?_⟩
  · simp only [otaBuffCommit, List.take_zero, List.append_nil]
    rw [htake, ← List.append_assoc, h.split]
  · simp only [otaBuffCommit, List.length_append, List.length_take, hsize,
      hpage.length, min_self]
    exact (Nat.dvd_add_left (dvd_refl _)).mpr h.pages
  · exact (by decide : 0 < buffSize)
  · simp only [otaBuffCommit]
    rw [getElem?_memset, if_pos hk]
  · simp only [otaBuffCommit, List.length_append, List.length_take, hsize,
      hpage.length, min_self] at hlt hk ⊢
    have hsha : u'.sha = u.sha := rfl
    have hflash : u'.flashOffset = u.flashOffset := rfl
    rw [hsha] at hlt hk
    have hlt' : u.sha.length < 2 ^ 32 := by omega
    obtain ⟨hoffset, -⟩ := h.image hlt'
    rw [Slot.program_bytes, if_neg]
    · exact h.beyond hlt' k (by omega)
    · rw [hpage.length]
      omega
  · simp only [otaBuffCommit]
    exact toUInt32_lt _

/-- A write that meets no failure reads the payload of the first segment. -/
theorem written_writeLoop {outcome : ℕ → CommitOutcome}
    (hok : ∀ k, outcome k = .ok) (fuel : ℕ) (data : List UInt8) (k : ℕ)
    (hfuel : data.length < fuel) (h : Written u d stream) :
    Written (updateWriteLoop outcome fuel data k u d).2.1
      (updateWriteLoop outcome fuel data k u d).2.2 (stream ++ data) := by
  induction fuel generalizing data k u d stream with
  | zero => omega
  | succ fuel ih =>
      have hroom := h.room
      simp only [updateWriteLoop, hok]
      by_cases hfits : data.length + u.buffP < buffSize
      · rw [min_eq_left (by omega), List.take_length, List.drop_length,
          if_neg (by omega), if_neg (by simp)]
        exact h.copied hfits
      · have hcsize : min data.length (buffSize - u.buffP) =
            buffSize - u.buffP := by
          omega
        have htake : (data.take (buffSize - u.buffP)).length =
            buffSize - u.buffP := by
          rw [List.length_take]
          omega
        have hfilled := h.filled (data.take (buffSize - u.buffP)) (by omega)
        simp only [htake] at hfilled
        rw [hcsize, if_pos (by omega)]
        split
        next hfail => exact (hfail rfl).elim
        · have hsplit : stream ++ data =
              stream ++ data.take (buffSize - u.buffP) ++
                data.drop (buffSize - u.buffP) := by
            rw [List.append_assoc, List.take_append_drop]
          rw [hsplit]
          split
          · refine ih _ _ ?_ hfilled
            rw [List.length_drop]
            omega
          next hrest =>
            rw [not_not.mp hrest, List.append_nil]
            exact hfilled

/-- The image and zeros up to a whole page. -/
def paddedImage (image : List UInt8) : List UInt8 :=
  image ++ List.replicate
    ((buffSize - image.length % buffSize) % buffSize) 0

/-- The image is in the slot, its bytes in the SHA-256 context, and its length
in `flash_offset`. -/
structure ImageWritten (u : OtaUpdate) (d : Device) (image : List UInt8) :
    Prop where
  slot : ∀ k, d.slot.bytes k = (paddedImage image)[k]?
  sha : u.sha = image
  offset : u.flashOffset = image.length

theorem written_write (h : Written u d stream) (p : Pbuf)
    {outcome : ℕ → CommitOutcome} (hok : ∀ k, outcome k = .ok) :
    Written (otaTftpUpdateWrite u d p outcome).2.1
      (otaTftpUpdateWrite u d p outcome).2.2 (stream ++ p.payload) := by
  have hprogress : ¬u.inProgress = false := by simp [h.progress]
  unfold otaTftpUpdateWrite
  simp only [h.progress, if_true, Bool.true_eq_false, if_false]
  exact written_writeLoop hok _ _ _ (by omega) h

/-- Behind whole pages of an image its padding fills one more page. -/
theorem paddedImage_getElem? {pages rest : List UInt8}
    (hpages : buffSize ∣ pages.length) (hrest : rest.length < buffSize)
    (k : ℕ) :
    (paddedImage (pages ++ rest))[k]? =
      if k < pages.length then pages[k]?
      else if k < pages.length + rest.length then rest[k - pages.length]?
      else if rest ≠ [] ∧ k < pages.length + buffSize then some 0
      else none := by
  have hmod : (pages ++ rest).length % buffSize = rest.length := by
    rw [List.length_append, Nat.add_mod, Nat.mod_eq_zero_of_dvd hpages,
      Nat.zero_add, Nat.mod_mod, Nat.mod_eq_of_lt hrest]
  have hpos : rest ≠ [] ↔ 0 < rest.length := List.length_pos_iff.symm
  unfold paddedImage
  rw [hmod, List.append_assoc, List.getElem?_append]
  split
  · rfl
  · rw [List.getElem?_append]
    by_cases hk : k < pages.length + rest.length
    · rw [if_pos (by omega), if_pos hk]
    · rw [if_neg (by omega), if_neg hk, List.getElem?_replicate]
      by_cases hne : rest ≠ []
      · have hlen := hpos.mp hne
        rw [Nat.mod_eq_of_lt (by omega)]
        have hiff : k - pages.length - rest.length <
            buffSize - rest.length ↔ k < pages.length + buffSize := by
          omega
        simp [hiff, hne]
      · simp [not_not.mp hne]

/-- The close commits what is left of the page buffer. -/
theorem written_close (h : Written u d stream) (hlt : stream.length < 2 ^ 32) :
    ImageWritten (otaTftpUpdateClose u d .ok).1
      (otaTftpUpdateClose u d .ok).2 stream := by
  have hlength := h.page.length
  have hroom := h.room
  have hrest : (u.buff.take u.buffP).length = u.buffP := by
    rw [List.length_take]
    omega
  obtain rfl := h.split
  rw [List.length_append, hrest] at hlt
  have hsha : u.sha.length < 2 ^ 32 := by omega
  obtain ⟨hoffset, hbytes⟩ := h.image hsha
  have hbeyond := h.beyond hsha
  have hpadded := fun k => paddedImage_getElem? h.pages
    (hrest.trans_lt hroom) k
  unfold otaTftpUpdateClose
  simp only [h.progress, Bool.true_eq_false, if_false]
  by_cases hempty : u.buffP = 0
  · rw [if_neg (not_not.mpr hempty)]
    refine ⟨fun k => ?_, by simp [hempty], by simp [hempty, hoffset]⟩
    rw [hpadded k]
    by_cases hk : k < u.sha.length
    · rw [if_pos hk, ← hbytes k hk]
    · rw [if_neg hk, hrest, if_neg (by omega), if_neg (by simp [hempty])]
      exact hbeyond k (not_lt.mp hk)
  · rw [if_pos hempty]
    have hne : u.buff.take u.buffP ≠ [] := by
      rw [← List.length_pos_iff, hrest]
      omega
    refine ⟨fun k => ?_, rfl, ?_⟩
    · rw [hpadded k]
      simp only [otaBuffCommit]
      rw [Slot.program_bytes, hoffset, hlength, hrest]
      by_cases hk : k < u.sha.length
      · rw [if_neg (by omega), if_pos hk, hbytes k hk]
      · rw [if_neg hk]
        by_cases hpage : k < u.sha.length + buffSize
        · rw [if_pos (by omega)]
          by_cases hdata : k < u.sha.length + u.buffP
          · rw [if_pos hdata, List.getElem?_take_of_lt (by omega)]
          · rw [if_neg hdata, if_pos ⟨hne, hpage⟩]
            exact h.clear _ (by omega) (by omega)
        · rw [if_neg (by omega), if_neg (by omega), if_neg (by omega)]
          exact hbeyond k (not_lt.mp hk)
    · simp only [otaBuffCommit, List.length_append, hrest]
      rw [hoffset]
      unfold toUInt32
      omega

/-- Whatever its length, the stream is what the SHA-256 context was fed. -/
theorem written_close_sha (h : Written u d stream) :
    (otaTftpUpdateClose u d .ok).1.sha = stream ∧
      (otaTftpUpdateClose u d .ok).1.flashOffset < 2 ^ 32 := by
  unfold otaTftpUpdateClose
  simp only [h.progress, Bool.true_eq_false, if_false]
  by_cases hempty : u.buffP = 0
  · rw [if_neg (not_not.mpr hempty)]
    refine ⟨?_, h.offset⟩
    simpa [hempty] using h.split
  · rw [if_pos hempty]
    refine ⟨h.split, ?_⟩
    simp only [otaBuffCommit]
    exact toUInt32_lt _

/-! ## Every download -/

/-- The callbacks of a download without failures; the open callback may be left
to the first write. -/
def imageDownload (own : CStr) (opened : Bool) (ps : List Pbuf) :
    List OtaEvent :=
  (if opened then [.updateOpen (some own) true] else []) ++
    (ps.map (fun p => .updateWrite p fun _ => .ok) ++ [.updateClose .ok])

theorem otaTftpUpdateOpen_own {own : CStr} (hstarted : u.started ≠ 0)
    (hfile : u.file.fname = some own) :
    otaTftpUpdateOpen u d (some own) true =
      (true,
        { u with
          sha := []
          buffP := 0
          flashOffset := 0
          buff := memset u.buff 0 buffSize
          inProgress := true },
        { d with
          slot := Slot.clear
          jobState :=
            Commands.sysJobStateSet d.jobState Commands.otaJob }) := by
  unfold otaTftpUpdateOpen
  simp only [hfile]
  exact if_pos ⟨trivial, hstarted, trivial, (strcmp_eq_zero_iff _ _).mpr rfl⟩

/-- The first write opens the download. -/
theorem otaTftpUpdateWrite_opens {own : CStr} (hstarted : u.started ≠ 0)
    (hfile : u.file.fname = some own) (hidle : u.inProgress = false)
    (p : Pbuf) (outcome : ℕ → CommitOutcome) :
    otaTftpUpdateWrite u d p outcome =
      otaTftpUpdateWrite (otaTftpUpdateOpen u d (some own) true).2.1
        (otaTftpUpdateOpen u d (some own) true).2.2 p outcome := by
  unfold otaTftpUpdateWrite
  simp only [hidle, hfile, otaTftpUpdateOpen_own hstarted hfile,
    Bool.false_eq_true, if_false, if_true]

theorem written_writes (fw : Firmware) (sha256 : List UInt8 → List UInt8)
    (ps : List Pbuf) (h : Written s.update s.device stream) :
    Written
      ((OtaSystem.machine fw sha256).run s
        (ps.map fun p => .updateWrite p fun _ => .ok)).update
      ((OtaSystem.machine fw sha256).run s
        (ps.map fun p => .updateWrite p fun _ => .ok)).device
      (stream ++ ps.flatMap Pbuf.payload) := by
  induction ps generalizing s stream with
  | nil => simpa using h
  | cons p ps ih =>
      rw [List.flatMap_cons, ← List.append_assoc]
      exact ih (written_write h p fun _ => rfl)

/-- A download has read the first segments of all its pbufs when it is
closed. -/
theorem written_download (fw : Firmware)
    (sha256 : List UInt8 → List UInt8) {own : CStr} {opened : Bool} {ps : List Pbuf}
    (hpage : PageInv s.update) (hstarted : s.update.started ≠ 0)
    (hfile : s.update.file.fname = some own)
    (hfirst : opened = true ∨ s.update.inProgress = false ∧ ps ≠ []) :
    ∃ u d, Written u d (ps.flatMap Pbuf.payload) ∧
      ((OtaSystem.machine fw sha256).run s
        (imageDownload own opened ps)).update =
          (otaTftpUpdateClose u d .ok).1 ∧
      ((OtaSystem.machine fw sha256).run s
        (imageDownload own opened ps)).device =
          (otaTftpUpdateClose u d .ok).2 := by
  have hopened : Written
      (s.step fw sha256 (.updateOpen (some own) true)).update
      (s.step fw sha256 (.updateOpen (some own) true)).device [] := by
    simp only [OtaSystem.step, OtaSystem.withUpdate,
      otaTftpUpdateOpen_own hstarted hfile]
    exact written_opened hpage hstarted
  have hsame : (OtaSystem.machine fw sha256).run s
        (imageDownload own opened ps) =
      (OtaSystem.machine fw sha256).run s (imageDownload own true ps) := by
    cases opened with
    | true => rfl
    | false =>
        obtain ⟨hidle, hne⟩ := hfirst.resolve_left Bool.false_ne_true
        obtain ⟨p, rest, rfl⟩ := List.exists_cons_of_ne_nil hne
        simp only [imageDownload, Bool.false_eq_true, if_false, if_true,
          List.nil_append, List.map_cons, List.cons_append,
          EventMachine.run_cons]
        congr 1
        simp only [OtaSystem.machine, OtaSystem.step, OtaSystem.withUpdate,
          otaTftpUpdateWrite_opens hstarted hfile hidle]
  have hwritten := written_writes fw sha256 ps hopened
  rw [List.nil_append] at hwritten
  refine ⟨_, _, hwritten, ?_, ?_⟩ <;>
  · rw [hsame, imageDownload, if_pos rfl, EventMachine.run_append,
      EventMachine.run_append]
    rfl

/-- A chain has more bytes than its first segment unless the others are
empty. -/
theorem next_empty_of_length {ps : List Pbuf}
    (h : (ps.flatMap Pbuf.bytes).length ≤ (ps.flatMap Pbuf.payload).length) :
    ∀ p ∈ ps, p.next.flatten = [] := by
  have hle : ∀ ps : List Pbuf, (ps.flatMap Pbuf.payload).length ≤
      (ps.flatMap Pbuf.bytes).length := by
    intro ps
    induction ps with
    | nil => simp
    | cons p ps ih =>
        simp only [List.flatMap_cons, List.length_append, Pbuf.bytes] at ih ⊢
        omega
  induction ps with
  | nil => simp
  | cons p ps ih =>
      have hrest := hle ps
      simp only [List.flatMap_cons, List.length_append, Pbuf.bytes] at h hrest
      rw [List.forall_mem_cons]
      exact ⟨List.eq_nil_of_length_eq_zero (by omega), ih (by omega)⟩

theorem flatMap_bytes_eq {ps : List Pbuf} (h : ∀ p ∈ ps, p.next.flatten = []) :
    ps.flatMap Pbuf.bytes = ps.flatMap Pbuf.payload := by
  refine List.flatMap_congr fun p hp => ?_
  rw [Pbuf.bytes, h p hp, List.append_nil]

/-- After a download without failures the image is written exactly if no pbuf
is a chain and `flash_offset` can count its bytes. -/
theorem image_written_iff (fw : Firmware) (sha256 : List UInt8 → List UInt8)
    (d : Device) (es : List OtaEvent) (own : CStr) (opened : Bool)
    (ps : List Pbuf)
    (hes : (OtaSystem.machine fw sha256).Admits (sysOtaInit fw d) es) :
    let s := (OtaSystem.machine fw sha256).run (sysOtaInit fw d) es
    s.update.started ≠ 0 → s.update.file.fname = some own →
    (opened = true ∨ s.update.inProgress = false ∧ ps ≠ []) →
    let s' := (OtaSystem.machine fw sha256).run s (imageDownload own opened ps)
    (ImageWritten s'.update s'.device (ps.flatMap Pbuf.bytes) ↔
      (∀ p ∈ ps, p.next.flatten = []) ∧
        (ps.flatMap Pbuf.bytes).length < 2 ^ 32) := by
  intro s hstarted hfile hfirst s'
  obtain ⟨u, d', hwritten, hu, hd⟩ := written_download fw sha256
    (imageInv_along hes).1 hstarted hfile hfirst
  obtain ⟨hsha, hoffset⟩ := written_close_sha hwritten
  rw [hu, hd]
  constructor
  · intro himage
    constructor
    · refine next_empty_of_length (le_of_eq ?_)
      rw [← himage.sha, hsha]
    · rw [← himage.offset]
      exact hoffset
  · rintro ⟨hsegments, hlt⟩
    rw [flatMap_bytes_eq hsegments] at hlt ⊢
    exact written_close hwritten hlt

/-- An update command, before its download. -/
def updateStarted : List OtaEvent :=
  [.update (some (lit ":tftp://h/f.bin")) true true 1]

theorem updateStarted_spec :
    let s := (OtaSystem.machine relayFirmware knownSha256).run
      (sysOtaInit relayFirmware bootDevice) updateStarted
    (OtaSystem.machine relayFirmware knownSha256).Admits
        (sysOtaInit relayFirmware bootDevice) updateStarted ∧
      s.update.started ≠ 0 ∧ s.update.file.fname = some (lit "f.bin") ∧
      s.update.inProgress = false := by
  decide +kernel

theorem image_written_iff_twoFragments :
    let s := (OtaSystem.machine relayFirmware knownSha256).run
      (sysOtaInit relayFirmware bootDevice) updateStarted
    let s' := (OtaSystem.machine relayFirmware knownSha256).run s
      (imageDownload (lit "f.bin") false
        [{ payload := [1, 2], next := [] }, { payload := [3], next := [] }])
    ImageWritten s'.update s'.device [1, 2, 3] := by
  obtain ⟨hes, hstarted, hfile, hidle⟩ := updateStarted_spec
  exact (image_written_iff relayFirmware knownSha256 bootDevice updateStarted
    (lit "f.bin") false
    [{ payload := [1, 2], next := [] }, { payload := [3], next := [] }] hes
    hstarted hfile (Or.inr ⟨hidle, by simp⟩)).mpr (by decide)

/-- The second segment of a pbuf is lost. -/
theorem chained_segment_lost :
    let s := (OtaSystem.machine relayFirmware knownSha256).run
      (sysOtaInit relayFirmware bootDevice) updateStarted
    let s' := (OtaSystem.machine relayFirmware knownSha256).run s
      (imageDownload (lit "f.bin") false [{ payload := [1], next := [[2]] }])
    ¬ImageWritten s'.update s'.device [1, 2] := by
  have hsha : ((OtaSystem.machine relayFirmware knownSha256).run
      ((OtaSystem.machine relayFirmware knownSha256).run
        (sysOtaInit relayFirmware bootDevice) updateStarted)
      (imageDownload (lit "f.bin") false
        [{ payload := [1], next := [[2]] }])).update.sha = [1] := by
    decide +kernel
  intro s s' himage
  exact absurd (hsha.symm.trans himage.sha) (by decide)

end Herak.Ota
