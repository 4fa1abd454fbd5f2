import CoresightTrace.Utils.MapInfo

/-!
# The images of the traced ranges

The second loop of `setup_map_info()` opens the file of every selected range and
maps it, and `init_decoder()` hands the mappings to the decoder as the
instructions of the program. The loop asks for `open(...) < -1` and for a null
pointer of `mmap`. The system calls report a failure with -1 and `MAP_FAILED`, so
neither branch is ever taken (`mapImage_eq`) and the loop always ends with the
number of entries (`mapImages_eq`). The mappings are usable exactly if no call
fails (`images_reported_iff`).
-/

namespace CsTrace
namespace Utils

/-- `MAP_FAILED`, which is `(void *)-1`. -/
def mapFailed : ℕ := 2 ^ 64 - 1

/-- What `open` returns: a descriptor, or -1. -/
inductive Opened where
  | failed
  | fd (n : ℕ)
deriving DecidableEq, Repr

def Opened.value : Opened → ℤ
  | .failed => -1
  | .fd n => n

/-- What `mmap` returns without a wished address: an address the kernel chose, which
is never null, or `MAP_FAILED`. -/
inductive Mapped where
  | failed
  | addr (p : ℕ) (pos : 0 < p) (lt : p < mapFailed)

def Mapped.value : Mapped → ℕ
  | .failed => mapFailed
  | .addr p _ _ => p

/-- The answers of the kernel: for the `i`-th entry, what `open` returns for a path and
what `mmap` returns for a size, a descriptor and an offset. -/
structure Files where
  open_ : ℕ → List Char → Opened
  mmap : ℕ → ℕ → ℤ → ℕ → Mapped

/-- `PAGE_SIZE`. -/
def pageSize : ℕ := 0x1000

/-- `ALIGN_UP(val, PAGE_SIZE)` of a 64-bit value. -/
def alignUp (val : ℕ) : ℕ := (val + (pageSize - 1)) % 2 ^ 64 / pageSize * pageSize

/-- The size of the mapping of an entry, `end - start` in whole pages. -/
def MapInfo.size (info : MapInfo) : ℕ := alignUp ((2 ^ 64 + info.stop - info.start) % 2 ^ 64)

/-! ### The loop -/

/-- The body of the loop; `none` returns -1 from the function. -/
def mapImage (files : Files) (i : ℕ) (info : MapInfo) : Option MapInfo :=
  let fd := (files.open_ i info.path).value
  -- a failure is -1, so that the loop goes on with it as a descriptor
  if fd < -1 then none
  else
    let buf := (files.mmap i info.size fd info.offset).value
    -- `!buf`, which `MAP_FAILED` is not
    if buf = 0 then none
    else some { info with buf := buf }

/-- The loop from the `i`-th entry on: whether it comes to its end, and the entries. -/
def mapImagesFrom (files : Files) : ℕ → List MapInfo → Bool × List MapInfo
  | _, [] => (true, [])
  | i, info :: infos =>
    match mapImage files i info with
    -- the entries from here on keep the `NULL` that the scan stored
    | none => (false, info :: infos)
    | some info' =>
      let rest := mapImagesFrom files (i + 1) infos
      (rest.1, info' :: rest.2)

/-- The second loop of `setup_map_info`: its result for the selected entries, and the
entries after it. -/
def mapImages (files : Files) (infos : List MapInfo) : ℤ × List MapInfo :=
  let looped := mapImagesFrom files 0 infos
  (if looped.1 then infos.length else -1, looped.2)

/-- `setup_map_info`, for the text of the file or nothing if it cannot be opened. -/
def setupMapInfo (lib : Option (List Char)) (infoCountMax : ℕ) (scan : Scan)
    (maps : Option (List Char)) (files : Files) : ℤ × List MapInfo :=
  match maps with
  | none => (-1, scan.mapInfo)
  | some maps => mapImages files (scan.run lib infoCountMax maps).mapInfo

/-- `struct libcsdec_memory_image`. -/
structure MemImage where
  data : ℕ
  size : ℕ
deriving DecidableEq, Repr

/-- The images that `init_decoder` hands to the decoder. -/
def memImages (infos : List MapInfo) : List MemImage :=
  infos.map fun info => { data := info.buf, size := info.size }

/-! ### What the loop sees -/

section Images

variable (files : Files)

/-- The file of the entry cannot be opened or mapped. -/
def Files.Fails (i : ℕ) (info : MapInfo) : Prop :=
  files.open_ i info.path = .failed ∨
    files.mmap i info.size (files.open_ i info.path).value info.offset = .failed

/-- The image lies where `mmap` has put the file of the entry, with the size it was
asked for. -/
def Files.Maps (i : ℕ) (info : MapInfo) (image : MemImage) : Prop :=
  ∃ fd p pos lt, files.open_ i info.path = .fd fd ∧
    files.mmap i info.size fd info.offset = .addr p pos lt ∧ image = ⟨p, info.size⟩

/-- The address that the loop stores, whether or not it is one. -/
def Files.buf (i : ℕ) (info : MapInfo) : ℕ :=
  (files.mmap i info.size (files.open_ i info.path).value info.offset).value

theorem Opened.neg_one_le (o : Opened) : -1 ≤ o.value := by
  cases o with
  | failed => exact le_rfl
  | fd n =>
    show (-1 : ℤ) ≤ n
    omega

theorem Mapped.value_pos (m : Mapped) : 0 < m.value := by
  cases m with
  | failed => decide
  | addr p pos lt => exact pos

/-- **Neither check of the loop applies.** -/
theorem mapImage_eq (i : ℕ) (info : MapInfo) :
    mapImage files i info = some { info with buf := files.buf i info } := by
  unfold mapImage
  dsimp only
  rw [if_neg (Opened.neg_one_le _).not_gt, if_neg (Mapped.value_pos _).ne']
  rfl

theorem mapImagesFrom_eq (i : ℕ) (infos : List MapInfo) :
    mapImagesFrom files i infos =
      (true, infos.mapIdx fun k info => { info with buf := files.buf (i + k) info }) := by
  induction infos generalizing i with
  | nil => rfl
  | cons info infos ih =>
    rw [mapImagesFrom, mapImage_eq]
    dsimp only
    rw [ih, List.mapIdx_cons]
    simp [Nat.add_comm, Nat.add_left_comm]

/-- The loop ends with the number of entries, and every entry has what `mmap` returned. -/
theorem mapImages_eq (infos : List MapInfo) : mapImages files infos =
    ((infos.length : ℤ), infos.mapIdx fun i info => { info with buf := files.buf i info }) := by
  unfold mapImages
  rw [mapImagesFrom_eq]
  simp

/-- For a file that the kernel wrote, `setup_map_info` returns the number of the lines
that it selects. -/
theorem setupMapInfo_selected (lib : Option (List Char)) {infoCountMax : ℕ}
    (hmax : 1 ≤ infoCountMax) (lines : List MapsLine) (start stop offset : ℕ) (x : Char) :
    (setupMapInfo lib infoCountMax (Scan.init start stop offset x) (some (mapsText lines))
      files).1 = (selected lib infoCountMax lines).length := by
  unfold setupMapInfo
  dsimp only
  rw [run_mapInfo lib hmax, mapImages_eq]
  show ((List.map MapsLine.mapInfo _).length : ℤ) = _
  rw [List.length_map]

/-- The images are what `mmap` returned for the entries. -/
theorem getElem?_memImages {infos : List MapInfo} {i : ℕ} {info : MapInfo}
    (h : infos[i]? = some info) :
    (memImages (mapImages files infos).2)[i]? = some ⟨files.buf i info, info.size⟩ := by
  rw [mapImages_eq]
  unfold memImages
  rw [List.getElem?_map, List.getElem?_mapIdx, h]
  rfl

/-- An entry that does not fail has its file mapped. -/
theorem Files.maps_of_not_fails {files : Files} {i : ℕ} {info : MapInfo}
    (h : ¬ files.Fails i info) : files.Maps i info ⟨files.buf i info, info.size⟩ := by
  unfold Files.Fails at h
  unfold Files.Maps Files.buf
  obtain ⟨hopen, hmap⟩ := not_or.mp h
  cases ho : files.open_ i info.path with
  | failed => exact absurd ho hopen
  | fd fd =>
    -- the file is open, and `mmap` was asked for it
    rw [ho] at hmap
    change ¬ files.mmap i info.size fd info.offset = .failed at hmap
    cases hm : files.mmap i info.size fd info.offset with
    | failed => exact absurd hm hmap
    | addr p pos lt =>
      refine ⟨fd, p, pos, lt, rfl, hm, ?_⟩
      show MemImage.mk (files.mmap i info.size fd info.offset).value _ = _
      rw [hm]
      rfl

/-- `setup_map_info` reports the images that cannot be used: if a file cannot be opened
or mapped it returns -1, and where it returns a count every image that the decoder gets
is a mapping of its file. -/
def Reports (infos : List MapInfo) : Prop :=
  (∀ i info, infos[i]? = some info → files.Fails i info → (mapImages files infos).1 = -1) ∧
    (0 ≤ (mapImages files infos).1 → ∀ i info, infos[i]? = some info →
      ∃ image, (memImages (mapImages files infos).2)[i]? = some image ∧ files.Maps i info image)

/-- **Unusable images.** They are reported exactly if there are none. -/
theorem images_reported_iff (infos : List MapInfo) :
    Reports files infos ↔ ∀ i info, infos[i]? = some info → ¬ files.Fails i info := by
  constructor
  · -- a failure would have to turn the number of entries into -1
    intro h i info hi hfail
    have hret : ((infos.length : ℕ) : ℤ) = -1 := by
      have := h.1 i info hi hfail
      rwa [mapImages_eq] at this
    omega
  · intro h
    refine ⟨fun i info hi hfail => absurd hfail (h i info hi), fun _ i info hi => ?_⟩
    exact ⟨_, getElem?_memImages files hi, Files.maps_of_not_fails (h i info hi)⟩

end Images

/-- A file that cannot be opened: `open` returns -1, and `mmap` of the descriptor -1
fails. -/
def missingFile : Files where
  open_ _ _ := .failed
  mmap _ _ _ _ := .failed

/-- The range of a file that cannot be opened counts as set up, and the decoder gets
`MAP_FAILED` as the address of the instructions. -/
theorem missing_file_unreported :
    let info : MapInfo := ⟨0x1000, 0x2000, 0, 0, ['/', 'a']⟩
    missingFile.Fails 0 info ∧ (mapImages missingFile [info]).1 = 1 ∧
      memImages (mapImages missingFile [info]).2 = [⟨mapFailed, 0x1000⟩] ∧
      ¬ Reports missingFile [info] := by
  intro info
  have hfail : missingFile.Fails 0 info := Or.inl rfl
  refine ⟨hfail, by decide, by decide, fun h => ?_⟩
  exact absurd (h.1 0 info rfl hfail) (by decide)

end Utils
end CsTrace
