import Graft.Sync.Establish

/-!
# Downloading a release (`DownloadAndVerify` in `pkg/update.go`)

The release client gives the text of the checksums and writes the binary to a temporary file beside
the running executable; the file is kept only if its SHA-256 is the one that the text has for the
platform.  Of the operating system the model has which calls fail.
-/

namespace Graft.Download

open Sync (fields trimSpace)

inductive DownloadError
  | version (version : String)
  | platform (platform : String)
  | checksums (cause : String)
  | checksumLength (binaryName : String) (length : ℕ)
  | checksumHex (binaryName : String) (checksum : List Char)
  | checksumNotFound (binaryName : String)
  | executable (cause : String)
  | createTemp (cause : String)
  | downloading (cause : String)
  | reading
  | verification (expected actual : List Char)
  | permissions
  deriving DecidableEq

/-! ### The checksum of the platform -/

/-- The platform's name for the binary. -/
def platformBinaryName (goos goarch : String) : Except DownloadError String :=
  if goos ++ "-" ++ goarch ∈ ["linux-amd64", "linux-arm64", "darwin-arm64"] then
    .ok ("graft-" ++ goos ++ "-" ++ goarch)
  else .error (.platform (goos ++ "-" ++ goarch))

def isHexDigit (c : Char) : Bool :=
  -- `0` to `9`, `a` to `f`, `A` to `F`
  48 ≤ c.toNat ∧ c.toNat ≤ 57 ∨ 97 ≤ c.toNat ∧ c.toNat ≤ 102 ∨ 65 ≤ c.toNat ∧ c.toNat ≤ 70

/-- `len` of a Go string: its bytes. -/
def byteLength (text : List Char) : ℕ := (text.map Char.utf8Size).sum

/-- The checksum on a line, if it has two fields and the second is the name. -/
def checksumFor (binaryName : String) (rawLine : List Char) : Option (List Char) :=
  match fields (trimSpace (String.ofList rawLine)).toList with
  | [sum, name] => if name = binaryName.toList then some sum else none
  | _ => none

/-- The lines up to the first that names the binary.  Only the letters of ASCII are made small: no
other letter becomes a hexadecimal digit. -/
def parseLines (binaryName : String) : List (List Char) → Except DownloadError (List Char)
  | [] => .error (.checksumNotFound binaryName)
  | rawLine :: lines =>
    match checksumFor binaryName rawLine with
    | none => parseLines binaryName lines
    | some sum =>
      let checksum := sum.map Char.toLower
      if byteLength checksum ≠ 64 then
        .error (.checksumLength binaryName (byteLength checksum))
      else if !checksum.all isHexDigit then .error (.checksumHex binaryName checksum)
      else .ok checksum

def parseChecksum (checksums : List Char) (binaryName : String) :
    Except DownloadError (List Char) :=
  parseLines binaryName (checksums.splitOn '\n')

/-! ### The download -/

/-- `hex.EncodeToString` -/
def encodeToString (data : List UInt8) : List Char :=
  data.flatMap fun b => [Nat.digitChar (b.toNat / 16), Nat.digitChar (b.toNat % 16)]

/-- What the release client and the operating system do. -/
structure World where
  goos : String
  goarch : String
  /-- `semver.NewVersion` takes the version -/
  validVersion : String → Bool
  /-- `DownloadChecksums` -/
  downloadChecksums : Except String (List Char)
  /-- the directory of the executable, with its links followed -/
  resolvedTarget : Except String String
  /-- `os.CreateTemp` -/
  createTemp : Except String String
  /-- `DownloadBinary`: what it leaves in the temporary file, and its error -/
  downloadBinary : Option (List UInt8) × Option String
  sha256 : List UInt8 → List UInt8
  readable : Bool
  chmodFails : Bool
  /-- `os.Remove` fails -/
  removeFails : Bool

/-- The result, and the temporary file of the call that is left. -/
structure Outcome where
  result : Except DownloadError (String × String)
  tmpFile : Option (List UInt8)

/-- An error after the temporary file was made: it is removed. -/
def World.discard (w : World) (err : DownloadError) : Outcome :=
  ⟨.error err, if w.removeFails then w.downloadBinary.1 else none⟩

def World.verify (w : World) (expectedChecksum : List Char) (resolvedTarget tmpFilePath : String) :
    Outcome :=
  match w.downloadBinary with
  | (_, some dlErr) => w.discard (.downloading dlErr)
  | (none, none) => w.discard .reading
  | (some binaryData, none) =>
    if !w.readable then w.discard .reading
    else
      let actualChecksum := encodeToString (w.sha256 binaryData)
      if actualChecksum ≠ expectedChecksum then
        w.discard (.verification expectedChecksum actualChecksum)
      else if w.chmodFails then w.discard .permissions
      else ⟨.ok (tmpFilePath, resolvedTarget), some binaryData⟩

def World.downloadAndVerify (w : World) (version : String) : Outcome :=
  let prepared : Except DownloadError (List Char × String × String) := do
    if !w.validVersion version then throw (.version version)
    let binaryName ← platformBinaryName w.goos w.goarch
    let checksumsData ← w.downloadChecksums.mapError .checksums
    let expectedChecksum ← parseChecksum checksumsData binaryName
    let resolvedTarget ← w.resolvedTarget.mapError .executable
    let tmpFilePath ← w.createTemp.mapError .createTemp
    return (expectedChecksum, resolvedTarget, tmpFilePath)
  match prepared with
  | .error err => ⟨.error err, none⟩
  | .ok (expectedChecksum, resolvedTarget, tmpFilePath) =>
    w.verify expectedChecksum resolvedTarget tmpFilePath

/-! ### What is returned -/

/-- `line` is the first that names the binary, with the checksum `sum`. -/
def FirstNaming (checksums : List Char) (binaryName : String) (sum : List Char) : Prop :=
  ∃ before line after, checksums.splitOn '\n' = before ++ line :: after ∧
    (∀ l ∈ before, checksumFor binaryName l = none) ∧ checksumFor binaryName line = some sum

theorem toNat_toLower (c : Char) :
    c.toLower.toNat = if 65 ≤ c.toNat ∧ c.toNat ≤ 90 then c.toNat + 32 else c.toNat := by
  unfold Char.toLower
  split_ifs with hval hnat hnat
  · have hlt : c.val.toNat + 32 < 2 ^ 32 := Nat.lt_of_le_of_lt (Nat.add_le_add_right hnat.2 32) (by decide)
    exact (UInt32.toNat_add ..).trans (Nat.mod_eq_of_lt hlt)
  · exact absurd hval hnat
  · exact absurd hnat hval
  · rfl

theorem isHexDigit_of_toLower {c : Char} (h : isHexDigit c.toLower = true) :
    isHexDigit c = true := by
  simp only [isHexDigit, decide_eq_true_eq, toNat_toLower] at h ⊢
  split_ifs at h <;> omega

theorem utf8Size_of_isHexDigit {c : Char} (h : isHexDigit c = true) : c.utf8Size = 1 := by
  rw [Char.utf8Size_eq_one_iff]
  simp only [isHexDigit, decide_eq_true_eq] at h
  have hle : c.toNat ≤ 127 := by omega
  exact hle

theorem byteLength_of_isHexDigit {text : List Char} (h : ∀ c ∈ text, isHexDigit c = true) :
    byteLength text = text.length := by
  rw [byteLength, List.map_congr_left fun c hc => utf8Size_of_isHexDigit (h c hc)]
  simp

theorem parseLines_eq_ok {binaryName : String} {lines : List (List Char)} {checksum : List Char}
    (h : parseLines binaryName lines = .ok checksum) :
    ∃ before line after sum, lines = before ++ line :: after ∧
      (∀ l ∈ before, checksumFor binaryName l = none) ∧ checksumFor binaryName line = some sum ∧
      checksum = sum.map Char.toLower ∧ sum.length = 64 ∧ ∀ c ∈ sum, isHexDigit c = true := by
  induction lines with
  | nil => cases h
  | cons rawLine lines ih =>
    rw [parseLines] at h
    cases hline : checksumFor binaryName rawLine with
    | none =>
      rw [hline] at h
      obtain ⟨before, line, after, sum, rfl, hbefore, hrest⟩ := ih h
      exact ⟨rawLine :: before, line, after, sum, rfl,
        List.forall_mem_cons.2 ⟨hline, hbefore⟩, hrest⟩
    | some sum =>
      simp only [hline] at h
      split_ifs at h with hlength hhex
      have hdigits : ∀ c ∈ sum.map Char.toLower, isHexDigit c = true := by simpa using hhex
      have hsum : sum.length = 64 := by
        rw [byteLength_of_isHexDigit hdigits, List.length_map, not_not] at hlength
        exact hlength
      exact ⟨[], rawLine, lines, sum, rfl, nofun, hline, (Except.ok.inj h).symm, hsum,
        fun c hc => isHexDigit_of_toLower (hdigits _ (List.mem_map_of_mem hc))⟩

/-- What is left after the file was made: the file that has the checksum, or an error, with the file
only if it cannot be removed. -/
theorem World.verify_cases (w : World) (expected : List Char) (target tmp : String) :
    (∃ data, w.verify expected target tmp = ⟨.ok (tmp, target), some data⟩ ∧
      encodeToString (w.sha256 data) = expected) ∨
    ∃ err, w.verify expected target tmp = w.discard err := by
  unfold World.verify
  split
  · exact .inr ⟨_, rfl⟩
  · exact .inr ⟨_, rfl⟩
  · dsimp only
    split_ifs with hread hsum hchmod
    · exact .inr ⟨_, rfl⟩
    · exact .inr ⟨_, rfl⟩
    · exact .inr ⟨_, rfl⟩
    · exact .inl ⟨_, rfl, not_not.1 hsum⟩

/-- **Only verified binaries are returned**: whatever the release client does, a success leaves a
temporary file whose SHA-256 is the checksum on the first line for the platform, which has 64
hexadecimal digits; an error leaves none, unless the operating system does not remove it. -/
theorem only_verified (w : World) (version : String) :
    (∀ tmp target, (w.downloadAndVerify version).result = .ok (tmp, target) →
      ∃ data binaryName text sum, (w.downloadAndVerify version).tmpFile = some data ∧
        platformBinaryName w.goos w.goarch = .ok binaryName ∧ w.downloadChecksums = .ok text ∧
        FirstNaming text binaryName sum ∧ sum.length = 64 ∧ (∀ c ∈ sum, isHexDigit c = true) ∧
        encodeToString (w.sha256 data) = sum.map Char.toLower) ∧
    (∀ err, (w.downloadAndVerify version).result = .error err → w.removeFails = false →
      (w.downloadAndVerify version).tmpFile = none) := by
  unfold World.downloadAndVerify
  cases hversion : w.validVersion version with
  | false => exact ⟨nofun, fun _ _ _ => rfl⟩
  | true =>
    cases hname : platformBinaryName w.goos w.goarch with
    | error err => exact ⟨nofun, fun _ _ _ => rfl⟩
    | ok binaryName =>
      cases htext : w.downloadChecksums with
      | error err => exact ⟨nofun, fun _ _ _ => rfl⟩
      | ok text =>
        cases hparse : parseChecksum text binaryName with
        | error err =>
          simp only [Except.mapError, bind, Except.bind, hparse]
          exact ⟨nofun, fun _ _ _ => rfl⟩
        | ok checksum =>
          obtain ⟨before, line, after, sum, hlines, hbefore, hline, rfl, hlength, hhex⟩ :=
            parseLines_eq_ok hparse
          cases htarget : w.resolvedTarget with
          | error err =>
            simp only [Except.mapError, bind, Except.bind, hparse]
            exact ⟨nofun, fun _ _ _ => rfl⟩
          | ok target =>
            cases htmp : w.createTemp with
            | error err =>
              simp only [Except.mapError, bind, Except.bind, hparse]
              exact ⟨nofun, fun _ _ _ => rfl⟩
            | ok tmp =>
              simp only [Except.mapError, bind, Except.bind, hparse, pure, Except.pure, Bool.not_true,
                Bool.false_eq_true, if_false]
              rcases w.verify_cases (sum.map Char.toLower) target tmp with ⟨data, heq, hsha⟩ | ⟨err, heq⟩
              · rw [heq]
                exact ⟨fun _ _ _ => ⟨data, binaryName, text, sum, rfl, rfl, rfl,
                  ⟨before, line, after, hlines, hbefore, hline⟩, hlength, hhex, hsha⟩, nofun⟩
              · rw [heq]
                exact ⟨nofun, fun _ _ hremove => if_neg (by simp [hremove])⟩

end Graft.Download
