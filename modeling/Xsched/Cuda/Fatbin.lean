import Mathlib.Data.List.DropRight
import Xsched.HbSplit.EntryNames

/-!
# The PTX text of a fat binary

`ExtractPtxText` takes the text from the first `.version` of a fat binary up to
the last closing brace that its scan comes to. Before the first brace the scan
passes over any byte; behind it a zero byte ends the scan, and so does a run of
16 bytes that are not of PTX. `ResolveRuntimeFunction` gives the text to the
driver as a C string, which ends at its first zero byte, and to the split
backend with its length, zero bytes and all.

**The registered text is the loaded text** exactly if the image is whole: the
bytes that PTX may have, from `.version` on, reach a closing brace, and the scan
comes to no other behind them (`registered_is_loaded_iff`).
-/
namespace Xsched.Cuda.Fatbin

open HbSplit (Text find contains collectEntryNames)

abbrev Bytes := List UInt8

/-- A byte as a `char`. -/
def text (bs : Bytes) : Text := bs.map fun b => Char.ofNat b.toNat

/-- What `memcpy` reads of `n` bytes into an unsigned integer. -/
def readLe (n : Nat) (bs : Bytes) : Nat := (bs.take n).foldr (fun b v => b.toNat + 256 * v) 0

/-- The part of platforms/cuda/shim/src/runtime_intercept.cpp:96-102 that is
looked at; `data` is the memory from the pointer on. -/
structure FatbinWrapper where
  magic : Nat
  data : Option Bytes

/-- mirrors platforms/cuda/shim/src/runtime_intercept.cpp:84-87 -/
def kFatCubinWrapperMagic : Nat := 0x466243b1
def kFatbinMagic : Nat := 0xba55ed50
def kFatbinScanLimit : Nat := 128 * 1024 * 1024
def kMinimumPtxBytes : Nat := 128

/-- mirrors platforms/cuda/shim/src/runtime_intercept.cpp:208-212 -/
def isAsciiPtxByte (c : UInt8) : Bool :=
  c = 0x0a || c = 0x0d || c = 0x09 || c = 0x0c || (0x20 ≤ c && c ≤ 0x7e)

def closeBrace : UInt8 := 0x7d

/-- `std::isspace` -/
def isspace (c : UInt8) : Bool := c = 0x20 || (0x09 ≤ c && c ≤ 0x0d)

/-- The loop over the bytes: where it ends, and the end of the last closing
brace before that.
mirrors platforms/cuda/shim/src/runtime_intercept.cpp:246-261 -/
def scan : Bytes → Nat → Option Nat → Nat → Nat × Option Nat
  | [], cursor, lastCloseBrace, _ => (cursor, lastCloseBrace)
  | c :: cs, cursor, lastCloseBrace, badRun =>
    if isAsciiPtxByte c then
      scan cs (cursor + 1) (if c = closeBrace then some (cursor + 1) else lastCloseBrace) 0
    else if c = 0 ∧ lastCloseBrace.isSome then (cursor, lastCloseBrace)
    else if 16 ≤ badRun + 1 ∧ lastCloseBrace.isSome then (cursor, lastCloseBrace)
    else scan cs (cursor + 1) lastCloseBrace (badRun + 1)

/-- The fat binary from its first `.version` on.
mirrors platforms/cuda/shim/src/runtime_intercept.cpp:227-244 -/
def versionOn (bytes : Bytes) : Except String Bytes :=
  let magic := readLe 4 bytes
  let fatbinSize := readLe 8 (bytes.drop 8)
  if magic ≠ kFatbinMagic ∨ fatbinSize < kMinimumPtxBytes ∨ kFatbinScanLimit < fatbinSize then
    .error "RUNTIME_FATBIN_HEADER_UNSUPPORTED"
  else
    let data := bytes.take fatbinSize
    match find ".version".toList (text data) 0 with
    | none => .error "RUNTIME_PTX_UNAVAILABLE"
    | some version => .ok (data.drop version)

/-- The text that the scan leaves, without the spaces at its end.
mirrors platforms/cuda/shim/src/runtime_intercept.cpp:263-271 -/
def scanned (image : Bytes) : Bytes :=
  let (cursor, lastCloseBrace) := scan image 0 none 0
  (image.take (lastCloseBrace.getD cursor)).rdropWhile isspace

/-- mirrors platforms/cuda/shim/src/runtime_intercept.cpp:214-282 -/
def extractPtxText (fatCubin : Option FatbinWrapper) : Except String Bytes :=
  match fatCubin with
  | none => .error "RUNTIME_FATBIN_NULL"
  | some wrapper =>
    if wrapper.magic ≠ kFatCubinWrapperMagic then .error "RUNTIME_FATBIN_WRAPPER_UNSUPPORTED"
    else
      match wrapper.data with
      | none => .error "RUNTIME_FATBIN_WRAPPER_UNSUPPORTED"
      | some bytes =>
        match versionOn bytes with
        | .error reason => .error reason
        | .ok image =>
          let ptx := scanned image
          if ptx.length < kMinimumPtxBytes then .error "RUNTIME_PTX_EXTRACT_FAILED"
          else if !contains ".entry".toList (text ptx) || !contains ".address_size".toList (text ptx)
          then .error "RUNTIME_PTX_EXTRACT_FAILED"
          else .ok ptx

/-- The C string at the front of the memory. -/
def cString (memory : Bytes) : Bytes := memory.takeWhile (· ≠ 0)

/-- What `ResolveRuntimeFunction` makes of the text of a fat binary. -/
structure Images where
  /-- the C string that `ModuleLoadDataEx` reads -/
  loaded : Bytes
  /-- what `RegisterModuleMetadata` gets with its size -/
  registered : Bytes

/-- mirrors platforms/cuda/shim/src/runtime_intercept.cpp:326-347 -/
def resolveImages (ptx : Bytes) : Images where
  loaded := cString (ptx ++ [0])
  registered := ptx

/-! ## What the scan comes to -/

/-- The bytes behind the first closing brace that the scan comes to: up to a
zero byte, or to the sixteenth byte in a row that is not of PTX. -/
def beforeStop : Nat → Bytes → Bytes
  | _, [] => []
  | badRun, c :: cs =>
    if isAsciiPtxByte c then c :: beforeStop 0 cs
    else if c = 0 then []
    else if 16 ≤ badRun + 1 then []
    else c :: beforeStop (badRun + 1) cs

/-- The end of the last closing brace of bytes that begin at `cursor`. -/
def lastBrace : Bytes → Nat → Option Nat → Option Nat
  | [], _, last => last
  | c :: cs, cursor, last =>
    lastBrace cs (cursor + 1) (if c = closeBrace then some (cursor + 1) else last)

theorem closeBrace_ascii : isAsciiPtxByte closeBrace = true := by decide

theorem lastBrace_none {bs : Bytes} (h : closeBrace ∉ bs) (cursor : Nat) (last : Option Nat) :
    lastBrace bs cursor last = last := by
  induction bs generalizing cursor with
  | nil => rfl
  | cons c cs ih =>
    rw [List.mem_cons, not_or] at h
    rw [lastBrace, if_neg (Ne.symm h.1), ih h.2]

theorem lastBrace_split (bs : Bytes) {cs : Bytes} (h : closeBrace ∉ cs) (cursor : Nat)
    (last : Option Nat) :
    lastBrace (bs ++ closeBrace :: cs) cursor last = some (cursor + bs.length + 1) := by
  induction bs generalizing cursor last with
  | nil => rw [List.nil_append, lastBrace, if_pos rfl, lastBrace_none h]; rfl
  | cons c bs ih =>
    rw [List.cons_append, lastBrace, ih, List.length_cons]
    congr 1
    omega

/-- The last closing brace of bytes that have one. -/
theorem exists_last_brace {bs : Bytes} (h : closeBrace ∈ bs) :
    ∃ pre post, bs = pre ++ closeBrace :: post ∧ closeBrace ∉ post := by
  induction bs with
  | nil => cases h
  | cons c cs ih =>
    by_cases hcs : closeBrace ∈ cs
    · obtain ⟨pre, post, rfl, hpost⟩ := ih hcs
      exact ⟨c :: pre, post, rfl, hpost⟩
    · rcases List.mem_cons.1 h with rfl | hm
      · exact ⟨[], cs, rfl, hcs⟩
      · exact absurd hm hcs

/-- Over bytes of PTX the scan goes on. -/
theorem scan_ascii {front : Bytes} (h : ∀ c ∈ front, isAsciiPtxByte c = true) (rest : Bytes)
    (cursor : Nat) (last : Option Nat) :
    scan (front ++ rest) cursor last 0 =
      scan rest (cursor + front.length) (lastBrace front cursor last) 0 := by
  induction front generalizing cursor last with
  | nil => rfl
  | cons c cs ih =>
    rw [List.cons_append, scan, if_pos (h c List.mem_cons_self),
      ih fun d hd => h d (List.mem_cons_of_mem _ hd), List.length_cons, lastBrace]
    congr 1
    omega

/-- Behind a closing brace the scan comes to the bytes before it stops. -/
theorem scan_behind (rest : Bytes) (cursor l badRun : Nat) :
    (scan rest cursor (some l) badRun).2 = lastBrace (beforeStop badRun rest) cursor (some l) := by
  induction rest generalizing cursor l badRun with
  | nil => rfl
  | cons c cs ih =>
    rw [scan, beforeStop]
    by_cases hc : isAsciiPtxByte c = true
    · rw [if_pos hc, if_pos hc, lastBrace]
      split
      · exact ih ..
      · exact ih ..
    · have hbrace : c ≠ closeBrace := by
        rintro rfl
        exact hc closeBrace_ascii
      rw [if_neg hc, if_neg hc]
      simp only [Option.isSome_some, and_true]
      split
      · rfl
      split
      · rfl
      · rw [lastBrace, if_neg hbrace]
        exact ih ..

/-! ## One image -/

/-- The bytes of PTX that begin at `.version`. -/
def front (image : Bytes) : Bytes := image.takeWhile isAsciiPtxByte

/-- The bytes from the first one that is not of PTX. -/
def behind (image : Bytes) : Bytes := image.dropWhile isAsciiPtxByte

/-- The bytes of PTX reach a closing brace, and behind them the scan comes to no
other. -/
def Whole (image : Bytes) : Prop :=
  closeBrace ∈ front image ∧ closeBrace ∉ beforeStop 0 (behind image)

instance (image : Bytes) : Decidable (Whole image) := inferInstanceAs (Decidable (_ ∧ _))

/-- The text has bytes of PTX only and ends with the last closing brace of the
image, the driver and the split backend get the same, and every entry that is
recorded is one of the module that was loaded. -/
structure OneImage (image ptx : Bytes) : Prop where
  ascii : ∀ c ∈ ptx, isAsciiPtxByte c = true
  ends : ∃ init tail, ptx = init ++ [closeBrace] ∧ front image = ptx ++ tail ∧ closeBrace ∉ tail
  loaded : (resolveImages ptx).loaded = (resolveImages ptx).registered
  entries : ∀ name ∈ collectEntryNames (text (resolveImages ptx).registered),
    name ∈ collectEntryNames (text (resolveImages ptx).loaded)

theorem image_eq (image : Bytes) : front image ++ behind image = image :=
  List.takeWhile_append_dropWhile

theorem front_ascii {image : Bytes} {c : UInt8} (h : c ∈ front image) : isAsciiPtxByte c = true :=
  List.mem_takeWhile_imp h

/-- What is left behind the last brace: nothing, and no space. -/
theorem scanned_eq {image init post : Bytes}
    (h : (scan image 0 none 0).2 = some (init.length + 1))
    (himage : image = init ++ closeBrace :: post) : scanned image = init ++ [closeBrace] := by
  have htake : image.take (init.length + 1) = init ++ [closeBrace] := by
    rw [himage, ← List.singleton_append, ← List.append_assoc]
    exact List.take_left' (by rw [List.length_append]; rfl)
  change (image.take ((scan image 0 none 0).2.getD (scan image 0 none 0).1)).rdropWhile isspace = _
  rw [h, Option.getD_some, htake, List.rdropWhile_concat_neg]
  decide

theorem scan_image {image : Bytes} (h : closeBrace ∈ front image) :
    ∃ init tail, front image = init ++ closeBrace :: tail ∧ closeBrace ∉ tail ∧
      (scan image 0 none 0).2 =
        lastBrace (beforeStop 0 (behind image)) (front image).length (some (init.length + 1)) := by
  obtain ⟨init, tail, hfront, htail⟩ := exists_last_brace h
  have hscan : scan image 0 none 0 =
      scan (behind image) (front image).length (some (init.length + 1)) 0 := by
    conv_lhs => rw [← image_eq image, scan_ascii fun c hc => front_ascii hc]
    rw [Nat.zero_add]
    congr 1
    rw [hfront, lastBrace_split init htail, Nat.zero_add]
  refine ⟨init, tail, hfront, htail, ?_⟩
  rw [hscan]
  exact scan_behind ..

theorem cString_of_ne {ptx : Bytes} (h : ∀ c ∈ ptx, c ≠ 0) : cString (ptx ++ [0]) = ptx := by
  unfold cString
  rw [List.takeWhile_append_of_pos fun c hc => by simpa using h c hc]
  simp

theorem beforeStop_prefix (badRun : Nat) (bs : Bytes) : beforeStop badRun bs <+: bs := by
  induction bs generalizing badRun with
  | nil => exact List.nil_prefix
  | cons c cs ih =>
    rw [beforeStop]
    split
    · exact (List.prefix_cons_inj c).2 (ih 0)
    split
    · exact List.nil_prefix
    split
    · exact List.nil_prefix
    · exact (List.prefix_cons_inj c).2 (ih _)

theorem ascii_ne_zero {c : UInt8} (h : isAsciiPtxByte c = true) : c ≠ 0 := by
  rintro rfl
  exact absurd h (by decide)

/-- A whole image leaves its bytes of PTX up to their last closing brace. -/
theorem oneImage_of_whole {image : Bytes} (h : Whole image) : OneImage image (scanned image) := by
  obtain ⟨init, tail, hfront, htail, hscan⟩ := scan_image h.1
  rw [lastBrace_none h.2] at hscan
  have himage : image = init ++ closeBrace :: (tail ++ behind image) := by
    conv_lhs => rw [← image_eq image, hfront]
    rw [List.append_assoc, List.cons_append]
  have hptx := scanned_eq hscan himage
  have hends : front image = scanned image ++ tail := by
    rw [hptx, List.append_assoc]
    exact hfront
  have hascii : ∀ c ∈ scanned image, isAsciiPtxByte c = true := fun c hc =>
    front_ascii (by rw [hends]; exact List.mem_append_left _ hc)
  have hloaded : (resolveImages (scanned image)).loaded = (resolveImages (scanned image)).registered :=
    cString_of_ne fun c hc => ascii_ne_zero (hascii c hc)
  exact ⟨hascii, ⟨init, tail, hptx, hends, htail⟩, hloaded, fun name hname => hloaded ▸ hname⟩

/-- Text that lies in the bytes of PTX is of a whole image: a closing brace that
the scan comes to behind them makes the text longer than they are. -/
theorem whole_of_ends {image init tail : Bytes} (hinit : scanned image = init ++ [closeBrace])
    (hfront : front image = scanned image ++ tail) : Whole image := by
  have hmem : closeBrace ∈ front image := by
    rw [hfront, hinit]
    simp
  refine ⟨hmem, fun hbehind => ?_⟩
  obtain ⟨_, _, -, -, hscan⟩ := scan_image hmem
  obtain ⟨pre, post, hsplit, hpost⟩ := exists_last_brace hbehind
  obtain ⟨rest, hrest⟩ := beforeStop_prefix 0 (behind image)
  rw [hsplit, lastBrace_split pre hpost, ← List.length_append] at hscan
  have himage : image = (front image ++ pre) ++ closeBrace :: (post ++ rest) := by
    conv_lhs => rw [← image_eq image, ← hrest, hsplit]
    simp only [List.append_assoc, List.cons_append]
  have hlong := congrArg List.length (scanned_eq hscan himage)
  have hshort := congrArg List.length hfront
  simp only [List.length_append, List.length_singleton] at hlong hshort
  omega

theorem extractPtxText_ok {fatCubin : Option FatbinWrapper} {ptx : Bytes}
    (h : extractPtxText fatCubin = .ok ptx) :
    ∃ bytes image, fatCubin = some ⟨kFatCubinWrapperMagic, some bytes⟩ ∧
      versionOn bytes = .ok image ∧ ptx = scanned image := by
  unfold extractPtxText at h
  split at h
  · cases h
  rename_i wrapper
  obtain ⟨magic, data⟩ := wrapper
  split at h
  · cases h
  rename_i hmagic
  rw [not_not] at hmagic
  cases hmagic
  cases data with
  | none => cases h
  | some bytes =>
    cases hv : versionOn bytes with
    | error reason => simp [hv] at h
    | ok image =>
      simp only [hv] at h
      split at h
      · cases h
      split at h
      · cases h
      cases h
      exact ⟨bytes, image, rfl, hv, rfl⟩

/-- The registered text is the loaded text, and one image of PTX, exactly if the
image that begins at `.version` is whole. -/
theorem registered_is_loaded_iff (fatCubin : Option FatbinWrapper) (ptx : Bytes)
    (h : extractPtxText fatCubin = .ok ptx) :
    ∃ bytes image, fatCubin = some ⟨kFatCubinWrapperMagic, some bytes⟩ ∧
      versionOn bytes = .ok image ∧ (OneImage image ptx ↔ Whole image) := by
  obtain ⟨bytes, image, hfat, hversion, rfl⟩ := extractPtxText_ok h
  refine ⟨bytes, image, hfat, hversion, fun hone => ?_, oneImage_of_whole⟩
  obtain ⟨init, tail, hinit, hfront, -⟩ := hone.ends
  exact whole_of_ends hinit hfront

/-! ## Images with and without a closing brace in front of a zero byte -/

/-- A fat binary that has `image` only. -/
def fatbin (image : Bytes) : Option FatbinWrapper :=
  some ⟨kFatCubinWrapperMagic,
    some ([0x50, 0xed, 0x55, 0xba, 0, 0, 0, 0, (16 + image.length).toUInt8, 0, 0, 0, 0, 0, 0, 0] ++
      image)⟩

def asciiBytes (s : String) : Bytes := s.toList.map (·.toNat.toUInt8)

/-- A module without a kernel. -/
def headerImage : Bytes := asciiBytes ".version 7.0\n.target sm_80\n.address_size 64\n"

def kernelImage : Bytes :=
  headerImage ++ asciiBytes
    (".visible .entry k(.param .u64 k_param_0, .param .u64 k_param_1, .param .u32 k_param_2)\n" ++
      "\x7b\n\tret;\n\x7d")

/-- One image, with the zero byte that ends it. -/
theorem registered_is_loaded_kernelImage :
    ∃ bytes image, fatbin (kernelImage ++ [0]) = some ⟨kFatCubinWrapperMagic, some bytes⟩ ∧
      versionOn bytes = .ok image ∧ (OneImage image kernelImage ↔ Whole image) :=
  registered_is_loaded_iff (fatbin (kernelImage ++ [0])) kernelImage (by decide +kernel)

/-- Behind a module without a kernel, which has no closing brace, the scan goes
on over the zero byte and into the next image: the driver loads the first
module, and the kernel of the second is recorded for it. -/
theorem zero_byte_between_images :
    let ptx := headerImage ++ 0 :: kernelImage
    extractPtxText (fatbin (ptx ++ [0])) = .ok ptx ∧
    (∃ c ∈ ptx, isAsciiPtxByte c = false) ∧
    (resolveImages ptx).loaded ≠ (resolveImages ptx).registered ∧
    "k".toList ∈ collectEntryNames (text (resolveImages ptx).registered) ∧
    collectEntryNames (text (resolveImages ptx).loaded) = [] ∧
    ∀ image, ¬ OneImage image ptx := by
  intro ptx
  have hzero : (0 : UInt8) ∈ ptx := by simp [ptx]
  refine ⟨by decide +kernel, ⟨0, hzero, by decide⟩, by decide +kernel, by decide +kernel,
    by decide +kernel, fun image h => ?_⟩
  exact absurd (h.ascii 0 hzero) (by decide)

end Xsched.Cuda.Fatbin
