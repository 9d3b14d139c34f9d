import AdWiki.Common.Http
import AdWiki.Common.Path

/-!
# The inspection of uploads

`inspectMediaFile` takes the type of an upload from its bytes and compares it with the extension of its name. Some
signatures are compared as bytes, the others as texts that `toString("ascii")` makes of bytes, which drops the highest bit
of each.

* `detectBinaryType_eq_some`, `inspectMediaFile_eq_binary`: which uploads are taken for which type.
* `inspection_exact_iff`: when the bytes are those of the signature.
-/

namespace AdWiki.Media

inductive BinaryMediaType
  | jpeg
  | png
  | gif
  | webp
  | pdf
  deriving DecidableEq, Repr

inductive MimeType
  | binary (type : BinaryMediaType)
  | markdown
  deriving DecidableEq, Repr

structure InspectedMediaFile where
  mimetype : MimeType
  size : Nat
  deriving DecidableEq, Repr

/-- The file that an upload has been stored in. -/
structure StoredFile where
  isFile : Bool
  bytes : List UInt8

/-- Unicode tables: `toLowerCase`, and the strict decoder of UTF-8. -/
structure Env where
  toLowerCase : String → String
  decodeUtf8 : List UInt8 → Option String

def headerBytes : Nat := 16

def tailBytes : Nat := 1024

def maxFileSize : Nat := 10 * 1024 * 1024

/-! ## Names and texts -/

/-- `extname(path)`: the last dot of the last segment and what follows it, unless nothing comes before it. -/
def extname (path : String) : String :=
  let base := (Path.basename path).toList
  let extension := (base.reverse.takeWhile (· != '.')).reverse
  let stem := base.take (base.length - extension.length - 1)
  if '.' ∉ base ∨ stem = [] ∨ base = ['.', '.'] then "" else String.ofList ('.' :: extension)

def extensionOf (env : Env) (originalName : String) : String :=
  env.toLowerCase (String.ofList ((extname originalName).toList.drop 1))

/-- `buffer.toString("ascii")` -/
def ascii (buffer : List UInt8) : List Char := buffer.map fun byte => Char.ofNat (byte.toNat % 128)

/-- `buffer.toString("latin1")` -/
def latin1 (buffer : List UInt8) : List Char := buffer.map fun byte => Char.ofNat byte.toNat

/-- `svg\b`, in letters of any case. -/
def svgWord (cs : List Char) : Bool :=
  (cs.take 3).map Char.toLower == ['s', 'v', 'g'] && !(cs.drop 3).head?.any fun c => c.isAlphanum || c == '_'

/-- A match of `/<\s*svg\b|<!doctype\s+svg\b/i` that begins here. -/
def svgHere : List Char → Bool
  | '<' :: cs =>
    svgWord (cs.dropWhile Js.isSpace) ||
      ((cs.take 8).map Char.toLower == "!doctype".toList && (cs.drop 8).head?.any Js.isSpace &&
        svgWord ((cs.drop 8).dropWhile Js.isSpace))
  | _ => false

def hasSvg (text : String) : Bool := text.toList.tails.any svgHere

/-! ## Signatures -/

/-- `signature.every((value, index) => buffer[index] === value)` -/
def startsWith (buffer signature : List UInt8) : Bool := signature.isPrefixOf buffer

def endsWith (buffer signature : List UInt8) : Bool := signature.isSuffixOf buffer

/-- `buffer.readUInt32LE(offset)` -/
def readUInt32LE (buffer : List UInt8) (offset : Nat) : Nat :=
  ((buffer.drop offset).take 4).foldr (fun byte value => byte.toNat + 256 * value) 0

/-- `/%%EOF\s*$/.test(text)` -/
def endsInEof (text : List Char) : Bool := "%%EOF".toList.isSuffixOf (text.reverse.dropWhile Js.isSpace).reverse

def jpegStart : List UInt8 := [0xff, 0xd8, 0xff]

def jpegEnd : List UInt8 := [0xff, 0xd9]

def pngStart : List UInt8 := [0x89, 0x50, 0x4e, 0x47, 0x0d, 0x0a, 0x1a, 0x0a]

def pngEnd : List UInt8 := [0x00, 0x00, 0x00, 0x00, 0x49, 0x45, 0x4e, 0x44, 0xae, 0x42, 0x60, 0x82]

def detectBinaryType (header tail : List UInt8) (size : Nat) : Option BinaryMediaType :=
  let text := ascii header
  if 4 ≤ size ∧ startsWith header jpegStart ∧ endsWith tail jpegEnd then some .jpeg
  else if 24 ≤ size ∧ startsWith header pngStart ∧ ascii ((header.drop 12).take 4) = "IHDR".toList ∧
    endsWith tail pngEnd then some .png
  else if 14 ≤ size ∧ ("GIF87a".toList.isPrefixOf text ∨ "GIF89a".toList.isPrefixOf text) ∧
    tail.getLast? = some 0x3b then some .gif
  else if 12 ≤ size ∧ "RIFF".toList.isPrefixOf text ∧ (text.drop 8).take 4 = "WEBP".toList ∧
    readUInt32LE header 4 + 8 = size then
    some .webp
  else if 8 ≤ size ∧ "%PDF-".toList.isPrefixOf text ∧ endsInEof (latin1 tail) then some .pdf
  else none

def extensionMatches (extension : String) : BinaryMediaType → Bool
  | .jpeg => extension = "jpg" || extension = "jpeg"
  | .png => extension = "png"
  | .gif => extension = "gif"
  | .webp => extension = "webp"
  | .pdf => extension = "pdf"

def inspectMediaFile (env : Env) (file : StoredFile) (originalName : String) : Except HttpError InspectedMediaFile :=
  let extension := extensionOf env originalName
  let size := file.bytes.length
  if extension = "svg" ∨ extension = "svgz" then
    .error (.badRequest "SVG-Dateien sind aus Sicherheitsgründen nicht erlaubt.")
  else if file.isFile = false ∨ size = 0 ∨ maxFileSize < size then
    .error (.badRequest "Die Datei ist leer, zu groß oder kein reguläres Dateiformat.")
  else if extension = "md" ∨ extension = "markdown" then
    if 0 ∈ file.bytes then .error (.badRequest "Die Markdown-Datei enthält unzulässige Binärdaten.")
    else
      match env.decodeUtf8 file.bytes with
      | none => .error (.badRequest "Markdown-Dateien müssen gültig als UTF-8 kodiert sein.")
      | some text =>
        if hasSvg text then .error (.badRequest "Eingebettete SVG-Inhalte sind in Markdown-Dateien nicht erlaubt.")
        else .ok ⟨.markdown, size⟩
  else
    let header := file.bytes.take headerBytes
    let tail := file.bytes.drop (size - min size tailBytes)
    match detectBinaryType header tail size with
    | none =>
      .error
        (.badRequest
          "Dateiendung und tatsächlicher Dateiinhalt stimmen nicht überein oder das Format wird nicht unterstützt.")
    | some detected =>
      if extensionMatches extension detected then .ok ⟨.binary detected, size⟩
      else .error (.badRequest
        "Dateiendung und tatsächlicher Dateiinhalt stimmen nicht überein oder das Format wird nicht unterstützt.")

/-! ## What the signatures are -/

/-- The bytes of an ASCII text. -/
def bytesOf (text : String) : List UInt8 := text.toList.map fun c => UInt8.ofNat c.toNat

/-- The bytes that begin a type, those that the code compares as bytes. -/
def ByteMagic (bytes : List UInt8) : BinaryMediaType → Prop
  | .jpeg => jpegStart <+: bytes
  | .png => pngStart <+: bytes
  | _ => True

/-- The bytes that begin a type, those that the code compares as a text. -/
def TextMagic (bytes : List UInt8) : BinaryMediaType → Prop
  | .jpeg => True
  | .png => (bytes.drop 12).take 4 = bytesOf "IHDR"
  | .gif => bytesOf "GIF87a" <+: bytes ∨ bytesOf "GIF89a" <+: bytes
  | .webp => bytesOf "RIFF" <+: bytes ∧ (bytes.drop 8).take 4 = bytesOf "WEBP"
  | .pdf => bytesOf "%PDF-" <+: bytes

/-- What the code requires of the size and of the end. -/
def Trailer (bytes : List UInt8) : BinaryMediaType → Prop
  | .jpeg => 4 ≤ bytes.length ∧ jpegEnd <:+ bytes
  | .png => 24 ≤ bytes.length ∧ pngEnd <:+ bytes
  | .gif => 14 ≤ bytes.length ∧ bytes.getLast? = some 0x3b
  | .webp => 12 ≤ bytes.length ∧ readUInt32LE bytes 4 + 8 = bytes.length
  | .pdf => 8 ≤ bytes.length ∧ endsInEof (latin1 (bytes.drop (bytes.length - tailBytes))) = true

/-- A file of the type, under a name with its extension. -/
structure Genuine (env : Env) (file : StoredFile) (originalName : String) (type : BinaryMediaType) : Prop where
  byteMagic : ByteMagic file.bytes type
  textMagic : TextMagic file.bytes type
  trailer : Trailer file.bytes type
  extension : extensionMatches (extensionOf env originalName) type = true

/-- The bytes that are compared as a text. -/
def textBytes (bytes : List UInt8) : BinaryMediaType → List UInt8
  | .jpeg => []
  | .png => (bytes.drop 12).take 4
  | .gif => bytes.take 6
  | .webp => bytes.take 4 ++ (bytes.drop 8).take 4
  | .pdf => bytes.take 5

/-- The byte without its highest bit. -/
def low (byte : UInt8) : UInt8 := UInt8.ofNat (byte.toNat % 128)

/-- The checks of a type, its texts compared without the highest bits. -/
structure Check (bytes : List UInt8) (type : BinaryMediaType) : Prop where
  byteMagic : ByteMagic bytes type
  textMagic : TextMagic (bytes.map low) type
  trailer : Trailer bytes type

/-- An upload that is taken for the type. -/
structure Passes (env : Env) (file : StoredFile) (originalName : String) (type : BinaryMediaType) : Prop where
  isFile : file.isFile = true
  size_le : file.bytes.length ≤ maxFileSize
  check : Check file.bytes type
  extension : extensionMatches (extensionOf env originalName) type = true

variable {env : Env} {file : StoredFile} {originalName : String} {type type' : BinaryMediaType}
  {bytes signature : List UInt8}
  {text : String} {n : Nat}

/-! ## Texts of bytes -/

theorem latin1_injective : Function.Injective latin1 := by
  refine List.map_injective_iff.mpr fun a b h => ?_
  have hall : ∀ n < 256, (Char.ofNat n).toNat = n := by decide +kernel
  have hbyte : ∀ c : UInt8, (Char.ofNat c.toNat).toNat = c.toNat := fun c => hall _ c.toNat_lt
  have hnat := congrArg Char.toNat h
  rw [hbyte, hbyte] at hnat
  exact UInt8.toNat_inj.mp hnat

theorem ascii_eq : ascii bytes = latin1 (bytes.map low) := by
  unfold ascii latin1
  rw [List.map_map]
  refine List.map_congr_left fun byte _ => ?_
  have hlow : (low byte).toNat = byte.toNat % 128 := by
    unfold low
    have : byte.toNat % 128 < 256 := by omega
    exact UInt8.toNat_ofNat_of_lt this
  simp only [Function.comp_apply, hlow]

/-- A text of bytes is compared byte by byte. -/
theorem ascii_eq_iff (h : latin1 (bytesOf text) = text.toList) :
    ascii bytes = text.toList ↔ bytes.map low = bytesOf text := by
  rw [ascii_eq, ← h]
  exact latin1_injective.eq_iff

theorem isPrefixOf_ascii (h : latin1 (bytesOf text) = text.toList) (hlength : (bytesOf text).length ≤ headerBytes) :
    text.toList.isPrefixOf (ascii (bytes.take headerBytes)) = true ↔ bytesOf text <+: bytes.map low := by
  have htake :
      (ascii (bytes.take headerBytes)).take (bytesOf text).length = ascii (bytes.take (bytesOf text).length) := by
    unfold ascii
    rw [← List.map_take, List.take_take, Nat.min_eq_left hlength]
  have hsame : text.toList.length = (bytesOf text).length := by rw [bytesOf, List.length_map]
  rw [List.isPrefixOf_iff_prefix, List.prefix_iff_eq_take, List.prefix_iff_eq_take, hsame, htake, eq_comm,
    ascii_eq_iff h, eq_comm, List.map_take]

/-! ## The end of a file -/

theorem suffix_drop (hn : n ≤ bytes.length) (h : signature.length ≤ bytes.length - n) :
    signature <:+ bytes.drop n ↔ signature <:+ bytes := by
  have hplace : n + (bytes.length - n - signature.length) = bytes.length - signature.length := by omega
  rw [List.suffix_iff_eq_drop, List.suffix_iff_eq_drop, List.drop_drop, List.length_drop, hplace]

/-- The tail that is read. -/
def tailOf (bytes : List UInt8) : List UInt8 := bytes.drop (bytes.length - min bytes.length tailBytes)

theorem endsWith_tailOf (h : signature.length ≤ bytes.length) (hlength : signature.length ≤ tailBytes) :
    endsWith (tailOf bytes) signature = true ↔ signature <:+ bytes := by
  unfold endsWith tailOf
  rw [List.isSuffixOf_iff_suffix]
  exact suffix_drop (by omega) (by omega)

theorem tailOf_eq : tailOf bytes = bytes.drop (bytes.length - tailBytes) := by
  have hplace : bytes.length - min bytes.length tailBytes = bytes.length - tailBytes := by omega
  rw [tailOf, hplace]

theorem getLast?_tailOf (h : 0 < bytes.length) : (tailOf bytes).getLast? = bytes.getLast? := by
  have hpos : 0 < tailBytes := by decide
  unfold tailOf
  rw [List.getLast?_drop, if_neg (by omega)]

theorem startsWith_take (h : signature.length ≤ headerBytes) : startsWith (bytes.take headerBytes) signature = true ↔
    signature <+: bytes := by
  unfold startsWith
  rw [List.isPrefixOf_iff_prefix, List.prefix_iff_eq_take, List.prefix_iff_eq_take, List.take_take, Nat.min_eq_left h]

/-! ## Types -/

/-- The first byte of a type, without its highest bit. -/
def firstByte : BinaryMediaType → UInt8
  | .jpeg => 0x7f
  | .png => 0x09
  | .gif => 0x47
  | .webp => 0x52
  | .pdf => 0x25

theorem head?_of_prefix {a : UInt8} (h : a :: signature <+: bytes) : bytes.head? = some a := by
  obtain ⟨rest, rfl⟩ := h
  rfl

theorem Check.head? (h : Check bytes type) : (bytes.map low).head? = some (firstByte type) := by
  have hbyte := h.byteMagic
  have htext := h.textMagic
  cases type with
  | jpeg =>
    rw [List.head?_map, head?_of_prefix hbyte]
    rfl
  | png =>
    rw [List.head?_map, head?_of_prefix hbyte]
    rfl
  | gif =>
    rcases htext with htext | htext
    · exact head?_of_prefix htext
    · exact head?_of_prefix htext
  | webp => exact head?_of_prefix htext.1
  | pdf => exact head?_of_prefix htext

/-- No upload passes the checks of two types. -/
theorem Check.unique (h : Check bytes type) (h' : Check bytes type') : type = type' := by
  have hfirst := Option.some.inj (h.head?.symm.trans h'.head?)
  have hinj : ∀ a b, firstByte a = firstByte b → a = b := by
    intro a b hab
    cases a <;> cases b <;> first | rfl | (revert hab; decide)
  exact hinj type type' hfirst

theorem check_jpeg :
    (4 ≤ bytes.length ∧ startsWith (bytes.take headerBytes) jpegStart ∧ endsWith (tailOf bytes) jpegEnd) ↔
    Check bytes .jpeg := by
  constructor
  · rintro ⟨hsize, hstart, hend⟩
    exact ⟨(startsWith_take (by decide)).mp hstart, trivial, hsize,
      (endsWith_tailOf (Nat.le_trans (by decide) hsize) (by decide)).mp hend⟩
  · rintro ⟨hstart, -, hsize, hend⟩
    exact ⟨hsize, (startsWith_take (by decide)).mpr hstart,
      (endsWith_tailOf (Nat.le_trans (by decide) hsize) (by decide)).mpr hend⟩

theorem drop_take_header {offset length : Nat} (h : offset + length ≤ headerBytes) :
    ((bytes.take headerBytes).drop offset).take length = (bytes.drop offset).take length := by
  rw [List.drop_take, List.take_take, Nat.min_eq_left (by omega)]

theorem ascii_chunk {offset length : Nat} (h : latin1 (bytesOf text) = text.toList)
    (hheader : offset + length ≤ headerBytes) :
    ascii (((bytes.take headerBytes).drop offset).take length) = text.toList ↔
      ((bytes.map low).drop offset).take length = bytesOf text := by
  rw [drop_take_header hheader, ascii_eq_iff h, List.map_take, List.map_drop]

theorem check_png : (24 ≤ bytes.length ∧ startsWith (bytes.take headerBytes) pngStart ∧
    ascii (((bytes.take headerBytes).drop 12).take 4) = "IHDR".toList ∧ endsWith (tailOf bytes) pngEnd) ↔
      Check bytes .png := by
  have htext := @ascii_chunk bytes "IHDR" 12 4 (by decide) (by decide)
  constructor
  · rintro ⟨hsize, hstart, hchunk, hend⟩
    exact ⟨(startsWith_take (by decide)).mp hstart, htext.mp hchunk, hsize,
      (endsWith_tailOf (Nat.le_trans (by decide) hsize) (by decide)).mp hend⟩
  · rintro ⟨hstart, hchunk, hsize, hend⟩
    exact ⟨hsize, (startsWith_take (by decide)).mpr hstart, htext.mpr hchunk,
      (endsWith_tailOf (Nat.le_trans (by decide) hsize) (by decide)).mpr hend⟩

theorem check_gif : (14 ≤ bytes.length ∧ ("GIF87a".toList.isPrefixOf (ascii (bytes.take headerBytes)) ∨
    "GIF89a".toList.isPrefixOf (ascii (bytes.take headerBytes))) ∧ (tailOf bytes).getLast? = some 0x3b) ↔
      Check bytes .gif := by
  rw [isPrefixOf_ascii (by decide) (by decide), isPrefixOf_ascii (by decide) (by decide)]
  constructor
  · rintro ⟨hsize, htext, hlast⟩
    exact ⟨trivial, htext, hsize, (getLast?_tailOf (by omega)).symm.trans hlast⟩
  · rintro ⟨-, htext, hsize, hlast⟩
    exact ⟨hsize, htext, (getLast?_tailOf (Nat.lt_of_lt_of_le (by decide) hsize)).trans hlast⟩

theorem readUInt32LE_take : readUInt32LE (bytes.take headerBytes) 4 = readUInt32LE bytes 4 := by
  unfold readUInt32LE
  rw [drop_take_header (by decide)]

theorem check_webp : (12 ≤ bytes.length ∧ "RIFF".toList.isPrefixOf (ascii (bytes.take headerBytes)) ∧
    ((ascii (bytes.take headerBytes)).drop 8).take 4 = "WEBP".toList ∧
      readUInt32LE (bytes.take headerBytes) 4 + 8 = bytes.length) ↔
      Check bytes .webp := by
  have hsplit : ((ascii (bytes.take headerBytes)).drop 8).take 4 = ascii (((bytes.take headerBytes).drop 8).take 4) := by
    simp only [ascii, List.map_take, List.map_drop]
  rw [isPrefixOf_ascii (by decide) (by decide), hsplit, ascii_chunk (by decide) (by decide), readUInt32LE_take]
  constructor
  · rintro ⟨hsize, hriff, hwebp, hlength⟩
    exact ⟨trivial, ⟨hriff, hwebp⟩, hsize, hlength⟩
  · rintro ⟨-, ⟨hriff, hwebp⟩, hsize, hlength⟩
    exact ⟨hsize, hriff, hwebp, hlength⟩

theorem check_pdf : (8 ≤ bytes.length ∧ "%PDF-".toList.isPrefixOf (ascii (bytes.take headerBytes)) ∧
    endsInEof (latin1 (tailOf bytes))) ↔ Check bytes .pdf := by
  rw [isPrefixOf_ascii (by decide) (by decide), tailOf_eq]
  constructor
  · rintro ⟨hsize, htext, hend⟩
    exact ⟨trivial, htext, hsize, hend⟩
  · rintro ⟨-, htext, hsize, hend⟩
    exact ⟨hsize, htext, hend⟩

/-- The type whose checks the bytes pass. -/
theorem detectBinaryType_eq_some :
    detectBinaryType (bytes.take headerBytes) (tailOf bytes) bytes.length = some type ↔ Check bytes type := by
  have hfound : ∀ found, Check bytes found → ((some found = some type) ↔ Check bytes type) := by
    intro found hcheck
    constructor
    · rintro ⟨⟩
      exact hcheck
    · intro h
      rw [hcheck.unique h]
  unfold detectBinaryType
  dsimp only
  split
  · next h => exact hfound .jpeg (check_jpeg.mp h)
  · next hjpeg =>
    split
    · next h => exact hfound .png (check_png.mp h)
    · next hpng =>
      split
      · next h => exact hfound .gif (check_gif.mp h)
      · next hgif =>
        split
        · next h => exact hfound .webp (check_webp.mp h)
        · next hwebp =>
          split
          · next h => exact hfound .pdf (check_pdf.mp h)
          · next hpdf =>
            refine ⟨fun h => (nomatch h), fun h => ?_⟩
            cases type with
            | jpeg => exact absurd (check_jpeg.mpr h) hjpeg
            | png => exact absurd (check_png.mpr h) hpng
            | gif => exact absurd (check_gif.mpr h) hgif
            | webp => exact absurd (check_webp.mpr h) hwebp
            | pdf => exact absurd (check_pdf.mpr h) hpdf

/-- The names of texts and of vector graphics are not those of a binary type. -/
theorem extension_ne {extension : String} (h : extensionMatches extension type = true) :
    (extension ≠ "svg" ∧ extension ≠ "svgz") ∧ extension ≠ "md" ∧ extension ≠ "markdown" := by
  have hname : extension ∈ ["jpg", "jpeg", "png", "gif", "webp", "pdf"] := by
    cases type <;> simp [extensionMatches] at h <;> simp [h]
    rcases h with h | h <;> simp [h]
  have hall : ∀ name ∈ ["jpg", "jpeg", "png", "gif", "webp", "pdf"], (name ≠ "svg" ∧ name ≠ "svgz") ∧ name ≠ "md" ∧
      name ≠ "markdown" := by
    decide
  exact hall extension hname

/-- The uploads that are accepted as a binary type. -/
theorem inspectMediaFile_eq_binary : inspectMediaFile env file originalName = .ok ⟨.binary type, n⟩ ↔
    Passes env file originalName type ∧ n = file.bytes.length := by
  have htail : file.bytes.drop (file.bytes.length - min file.bytes.length tailBytes) = tailOf file.bytes := rfl
  constructor
  · intro h
    unfold inspectMediaFile at h
    dsimp only at h
    rw [htail] at h
    split at h
    · cases h
    · split at h
      · cases h
      · next hfile =>
        split at h
        · split at h
          · cases h
          · split at h
            · cases h
            · split at h
              · cases h
              · cases h
        · split at h
          · cases h
          · next detected hdetected =>
            split at h
            · next hextension =>
              cases h
              rw [not_or, not_or] at hfile
              exact ⟨⟨by simpa using hfile.1, by omega, detectBinaryType_eq_some.mp hdetected, hextension⟩, rfl⟩
            · cases h
  · rintro ⟨⟨hfile, hsize, hcheck, hextension⟩, rfl⟩
    obtain ⟨hsvg, hmarkdown⟩ := extension_ne hextension
    have hnonempty : file.bytes ≠ [] := by
      intro hnil
      have hhead := hcheck.head?
      rw [hnil] at hhead
      cases hhead
    have hpos := List.length_pos_iff.mpr hnonempty
    have haccepted : ¬(file.isFile = false ∨ file.bytes.length = 0 ∨ maxFileSize < file.bytes.length) := by
      rintro (h | h | h)
      · rw [hfile] at h
        cases h
      · omega
      · omega
    unfold inspectMediaFile
    dsimp only
    rw [htail, if_neg (not_or.mpr hsvg), if_neg haccepted, if_neg (not_or.mpr hmarkdown),
      detectBinaryType_eq_some.mpr hcheck]
    dsimp only
    rw [if_pos hextension]

/-! ## Highest bits -/

theorem map_low (h : ∀ byte ∈ bytes, byte.toNat < 128) : bytes.map low = bytes := by
  have hlow : ∀ byte ∈ bytes, low byte = byte := by
    intro byte hbyte
    unfold low
    rw [Nat.mod_eq_of_lt (h byte hbyte), UInt8.ofNat_toNat]
  exact (List.map_congr_left hlow).trans (List.map_id _)

/-- Where no highest bit is dropped, the texts are those of the signature. -/
theorem textMagic_of_low (h : ∀ byte ∈ textBytes bytes type, byte.toNat < 128) (htext : TextMagic (bytes.map low) type) :
    TextMagic bytes type := by
  have hprefix :
      ∀ length, (∀ byte ∈ bytes.take length, byte.toNat < 128) → (bytes.map low).take length = bytes.take length := by
    intro length hlength
    rw [← List.map_take, map_low hlength]
  have hchunk : ∀ offset length, (∀ byte ∈ (bytes.drop offset).take length, byte.toNat < 128) →
      ((bytes.map low).drop offset).take length = (bytes.drop offset).take length := by
    intro offset length hlength
    rw [← List.map_drop, ← List.map_take, map_low hlength]
  cases type with
  | jpeg => trivial
  | png => exact (hchunk 12 4 h).symm.trans htext
  | gif =>
    have htake := hprefix 6 h
    simp only [TextMagic, List.prefix_iff_eq_take] at htext ⊢
    exact htext.imp (fun h => h.trans htake) (fun h => h.trans htake)
  | webp =>
    have htake := hprefix 4 fun byte hbyte => h byte (List.mem_append_left _ hbyte)
    have hdrop := hchunk 8 4 fun byte hbyte => h byte (List.mem_append_right _ hbyte)
    simp only [TextMagic, List.prefix_iff_eq_take] at htext ⊢
    exact ⟨htext.1.trans htake, hdrop.symm.trans htext.2⟩
  | pdf =>
    have htake := hprefix 5 h
    simp only [TextMagic, List.prefix_iff_eq_take] at htext ⊢
    exact htext.trans htake

/-- The signatures are ASCII. -/
theorem low_of_textMagic (htext : TextMagic bytes type) : ∀ byte ∈ textBytes bytes type, byte.toNat < 128 := by
  have hall : ∀ text ∈ ["IHDR", "GIF87a", "GIF89a", "RIFF", "WEBP", "%PDF-"],
      ∀ byte ∈ bytesOf text, byte.toNat < 128 := by
    intro text htext byte hbyte
    have htexts :
        ["IHDR", "GIF87a", "GIF89a", "RIFF", "WEBP", "%PDF-"].all
          (fun text => (bytesOf text).all (·.toNat < 128)) = true := by
      decide
    exact of_decide_eq_true (List.all_eq_true.mp (List.all_eq_true.mp htexts text htext) byte hbyte)
  cases type with
  | jpeg => exact fun byte hbyte => nomatch hbyte
  | png =>
    intro byte hbyte
    exact hall "IHDR" (by decide) byte (htext ▸ hbyte)
  | gif =>
    simp only [TextMagic, List.prefix_iff_eq_take] at htext
    intro byte hbyte
    rcases htext with htext | htext
    · exact hall "GIF87a" (by decide) byte (htext ▸ hbyte)
    · exact hall "GIF89a" (by decide) byte (htext ▸ hbyte)
  | webp =>
    simp only [TextMagic, List.prefix_iff_eq_take] at htext
    intro byte hbyte
    rcases List.mem_append.mp hbyte with hbyte | hbyte
    · exact hall "RIFF" (by decide) byte (htext.1 ▸ hbyte)
    · exact hall "WEBP" (by decide) byte (htext.2 ▸ hbyte)
  | pdf =>
    simp only [TextMagic, List.prefix_iff_eq_take] at htext
    intro byte hbyte
    exact hall "%PDF-" (by decide) byte (htext ▸ hbyte)

/-- **An upload is what it is taken for, exactly if no highest bit is dropped from the texts of its signature.** -/
theorem inspection_exact_iff :
    (∀ type n, inspectMediaFile env file originalName = .ok ⟨.binary type, n⟩ → Genuine env file originalName type) ↔
      ∀ type, Passes env file originalName type → ∀ byte ∈ textBytes file.bytes type, byte.toNat < 128 := by
  constructor
  · intro h type hpasses
    exact low_of_textMagic (h type _ (inspectMediaFile_eq_binary.mpr ⟨hpasses, rfl⟩)).textMagic
  · intro h type n haccepted
    obtain ⟨hpasses, -⟩ := inspectMediaFile_eq_binary.mp haccepted
    exact ⟨hpasses.check.byteMagic, textMagic_of_low (h type hpasses) hpasses.check.textMagic, hpasses.check.trailer,
      hpasses.extension⟩

namespace Demo

/-- Letters of ASCII. -/
def ascii : Env where
  toLowerCase text := String.ofList (text.toList.map Char.toLower)
  decodeUtf8 bytes := some (String.ofList (latin1 bytes))

/-- A GIF whose first letter has its highest bit set. -/
def picture : StoredFile := ⟨true, [0xc7, 0x49, 0x46, 0x38, 0x39, 0x61, 1, 0, 1, 0, 0, 0, 0, 0x3b]⟩

end Demo

/-- The text of a signature is found in bytes that do not begin with it. -/
theorem high_bit_dropped : inspectMediaFile Demo.ascii Demo.picture "bild.gif" = .ok ⟨.binary .gif, 14⟩ ∧
    ¬Genuine Demo.ascii Demo.picture "bild.gif" .gif := by
  refine ⟨by decide +kernel, fun h => ?_⟩
  have htext := h.textMagic
  revert htext
  simp only [TextMagic, List.prefix_iff_eq_take]
  decide

end AdWiki.Media
