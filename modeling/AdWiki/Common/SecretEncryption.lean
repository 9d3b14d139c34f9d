import AdWiki.Common.Http
import AdWiki.Common.Path
import AdWiki.Lib.Base64Url
import AdWiki.Lib.Utf8
import Mathlib

/-!
# Secrets at rest

The services that keep client secrets, PKCE data, access data of backup destinations, tokens of integrations and the mail
password encrypt them in the same way: AES-256-GCM with a key from the environment, as version, IV, tag and ciphertext in
base64url with dots between. They differ in the variable of the key and in their messages (`Service`).

* `readKey_eq_ok`: a key is accepted in exactly one spelling.
* `secrets_round_trip`: what was encrypted is decrypted, but for the empty text.
-/

namespace AdWiki.Secrets

abbrev Bytes := List Base64Url.Byte

/-! ## The cipher -/

/-- AES-256-GCM without additional data: what `createCipheriv` writes and `createDecipheriv` reads. -/
structure Gcm where
  encipher : Bytes → Bytes → Bytes → Bytes × Bytes
  decipher : Bytes → Bytes → Bytes → Bytes → Option Bytes
  length_cipher : ∀ key iv plain, (encipher key iv plain).1.length = plain.length
  length_tag : ∀ key iv plain, (encipher key iv plain).2.length = 16
  decipher_encipher : ∀ key iv plain, decipher key iv (encipher key iv plain).1 (encipher key iv plain).2 = some plain

/-! ## The services -/

inductive Failure
  | error (message : String)
  | http (e : HttpError)
  deriving DecidableEq, Repr

/-- What the services do not have in common. -/
structure Service where
  keyVariable : String
  keyMissing : Failure
  keyInvalid : Failure
  notDecrypted : String

def oidcSecrets : Service where
  keyVariable := "SSO_ENCRYPTION_KEY"
  keyMissing := .error "SSO_ENCRYPTION_KEY fehlt."
  keyInvalid := .error "SSO_ENCRYPTION_KEY muss exakt 32 Byte Base64 enthalten."
  notDecrypted := "Gespeicherte SSO-Daten konnten nicht entschlüsselt werden."

def backupCredentials : Service where
  keyVariable := "BACKUP_ENCRYPTION_KEY"
  keyMissing := .error "BACKUP_ENCRYPTION_KEY fehlt."
  keyInvalid := .error "BACKUP_ENCRYPTION_KEY muss 32 Byte Base64 enthalten."
  notDecrypted := "Gespeicherte Backup-Zugangsdaten konnten nicht entschlüsselt werden."

def integrationCredentials : Service where
  keyVariable := "INTEGRATION_ENCRYPTION_KEY"
  keyMissing := .error "INTEGRATION_ENCRYPTION_KEY fehlt."
  keyInvalid := .error "INTEGRATION_ENCRYPTION_KEY muss 32 Byte Base64 enthalten."
  notDecrypted := "Gespeicherte Integrationsdaten konnten nicht entschlüsselt werden."

def smtpCredentials : Service where
  keyVariable := "INTEGRATION_ENCRYPTION_KEY"
  keyMissing := .http (.internal "Der Verschlüsselungsschlüssel für SMTP ist nicht konfiguriert.")
  keyInvalid := .http (.internal "Der Verschlüsselungsschlüssel für SMTP ist ungültig.")
  notDecrypted := "Gespeicherte SMTP-Zugangsdaten konnten nicht entschlüsselt werden."

/-! ## The key -/

/-- The sign of the other alphabet. -/
def standardSign (c : Char) : Char := if c = '-' then '+' else if c = '_' then '/' else c

/-- `bytes.toString("base64")` -/
def toBase64 (bytes : Bytes) : List Char :=
  (Base64Url.encode bytes).map standardSign ++ List.replicate ((3 - bytes.length % 3) % 3) '='

variable (gcm : Gcm) (service : Service) (environment : String → Option String)

/-- `key()` -/
def readKey : Except Failure Bytes :=
  match (environment service.keyVariable).map Js.trim with
  | none | some "" => .error service.keyMissing
  | some raw =>
    let key := Base64Url.decode raw.toList
    if key.length ≠ 32 ∨ toBase64 key ≠ raw.toList then .error service.keyInvalid else .ok key

/-- `isConfigured()`, which the mail service does not have. -/
def isConfigured : Bool :=
  match readKey service environment with
  | .ok key => key.length = 32
  | .error _ => false

/-! ## The stored form -/

def VERSION : String := "v1"

def IV_BYTES : Nat := 12

def TAG_BYTES : Nat := 16

def base64Url (bytes : Bytes) : String := String.ofList (Base64Url.encode bytes)

/-- The four parts with dots between. -/
def stored (iv : Bytes) (sealed : Bytes × Bytes) : String :=
  ".".intercalate [VERSION, base64Url iv, base64Url sealed.2, base64Url sealed.1]

/-- `iv` is what `randomBytes(IV_BYTES)` gives. -/
def encrypt (iv : Bytes) (plainText : String) : Except Failure String := do
  let key ← readKey service environment
  return stored iv (gcm.encipher key iv (Utf8.encode plainText.toList))

/-- A part that is there and not empty. -/
def part (parts : List String) (i : Nat) : Option String := parts[i]?.filter (· ≠ "")

/-- The body of `decrypt`, up to its `catch`; a sixth part is not looked at. -/
def opened (value : String) : Option String := do
  let parts := Js.split '.' value
  guard (parts[0]? = some VERSION)
  let encodedIv ← part parts 1
  let encodedTag ← part parts 2
  let encodedCipherText ← part parts 3
  guard (part parts 4 = none)
  let iv := Base64Url.decode encodedIv.toList
  let tag := Base64Url.decode encodedTag.toList
  guard (iv.length = IV_BYTES ∧ tag.length = TAG_BYTES)
  let key ← (readKey service environment).toOption
  let plain ← gcm.decipher key iv (Base64Url.decode encodedCipherText.toList) tag
  return String.ofList (Utf8.decode plain)

def decrypt (value : String) : Except HttpError String :=
  match opened gcm service environment value with
  | some text => .ok text
  | none => .error (.internal service.notDecrypted)

variable {gcm service environment}

/-! ## Keys in one spelling -/

theorem sextet_standardSign (c : Char) : Base64Url.sextet (standardSign c) = Base64Url.sextet c := by
  unfold standardSign
  split
  · next h => rw [h]; rfl
  · split
    · next h => rw [h]; rfl
    · rfl

/-- Padding and the other alphabet are read as well. -/
theorem decode_toBase64 (bytes : Bytes) : Base64Url.decode (toBase64 bytes) = bytes := by
  have hpadding : ∀ n, (List.replicate n '=').filterMap Base64Url.sextet = [] := by
    intro n
    exact List.filterMap_eq_nil_iff.mpr fun c hc => by rw [List.eq_of_mem_replicate hc]; rfl
  have hsigns : ((Base64Url.encode bytes).map standardSign).filterMap Base64Url.sextet =
      (Base64Url.encode bytes).filterMap Base64Url.sextet := by
    rw [List.filterMap_map]
    exact List.filterMap_congr fun c _ => sextet_standardSign c
  have hdecode := Base64Url.decode_encode bytes
  rw [Base64Url.decode] at hdecode
  rw [Base64Url.decode, toBase64, List.filterMap_append, hpadding, List.append_nil, hsigns, hdecode]

/-- A key is read from its own Base64 text, with any white space around it, and from no other text. -/
theorem readKey_eq_ok {key : Bytes} : readKey service environment = .ok key ↔
    key.length = 32 ∧ (environment service.keyVariable).map Js.trim = some (String.ofList (toBase64 key)) := by
  unfold readKey
  constructor
  · intro h
    split at h
    · cases h
    · cases h
    · next raw _ hraw =>
      by_cases hvalid : (Base64Url.decode raw.toList).length ≠ 32 ∨ toBase64 (Base64Url.decode raw.toList) ≠ raw.toList
      · rw [if_pos hvalid] at h
        cases h
      · rw [if_neg hvalid] at h
        obtain ⟨hlength, hsame⟩ := not_or.mp hvalid
        cases h
        exact ⟨not_not.mp hlength, by rw [hraw, not_not.mp hsame, String.ofList_toList]⟩
  · rintro ⟨hlength, hraw⟩
    rw [hraw]
    have hkey : Base64Url.decode (String.ofList (toBase64 key)).toList = key := by
      rw [String.toList_ofList, decode_toBase64]
    split
    · next hnone => cases hnone
    · next hempty =>
      rw [Option.some.inj hempty] at hkey
      rw [← hkey] at hlength
      cases hlength
    · next raw _ hsome =>
      cases hsome
      rw [hkey, if_neg (by simp [hlength])]

theorem isConfigured_iff : isConfigured service environment = true ↔ ∃ key, readKey service environment = .ok key := by
  unfold isConfigured
  constructor
  · intro h
    split at h
    · next key hkey => exact ⟨key, hkey⟩
    · cases h
  · rintro ⟨key, hkey⟩
    rw [hkey]
    exact decide_eq_true (readKey_eq_ok.mp hkey).1

/-! ## The round trip -/

theorem dot_not_mem (bytes : Bytes) : '.' ∉ (base64Url bytes).toList := by
  rw [base64Url, String.toList_ofList]
  intro hdot
  obtain ⟨n, hn, hletter⟩ := List.mem_map.mp hdot
  have hlt : n < 64 := Base64Url.sextets_lt _
    (fun m hm => by obtain ⟨b, -, rfl⟩ := List.mem_map.mp hm; exact UInt8.toNat_lt b) n hn
  have hsextet := Base64Url.sextet_letter n hlt
  rw [hletter] at hsextet
  cases hsextet

theorem split_stored (iv : Bytes) (sealed : Bytes × Bytes) :
    Js.split '.' (stored iv sealed) = [VERSION, base64Url iv, base64Url sealed.2, base64Url sealed.1] := by
  refine Js.split_join (by simp) fun s hs => ?_
  simp only [List.mem_cons, List.not_mem_nil, or_false] at hs
  rcases hs with rfl | rfl | rfl | rfl
  · decide
  · exact dot_not_mem _
  · exact dot_not_mem _
  · exact dot_not_mem _

theorem decode_base64Url (bytes : Bytes) : Base64Url.decode (base64Url bytes).toList = bytes := by
  rw [base64Url, String.toList_ofList, Base64Url.decode_encode]

theorem base64Url_ne_empty {bytes : Bytes} (h : bytes ≠ []) : base64Url bytes ≠ "" := by
  intro hempty
  have hback := decode_base64Url bytes
  rw [hempty] at hback
  exact h hback.symm

theorem part_eq {parts : List String} {i : Nat} {s : String} (h : parts[i]? = some s) (hs : s ≠ "") :
    part parts i = some s := by
  rw [part, h]
  simp [hs]

/-- Text in UTF-8 is empty for the empty text alone. -/
theorem encode_eq_nil {text : String} : Utf8.encode text.toList = [] ↔ text = "" := by
  constructor
  · intro h
    have hback := Utf8.decode_encode text.toList
    rw [h] at hback
    exact String.toList_inj.mp hback.symm
  · rintro rfl
    rfl

variable {iv : Bytes} {text : String}

/-- Three parts after the version, of which the last one may be empty. -/
theorem opened_parts {key tag cipher : Bytes} (hkey : readKey service environment = .ok key) (hiv : iv.length = IV_BYTES)
    (htag : tag.length = TAG_BYTES) : opened gcm service environment (stored iv (cipher, tag)) =
      if cipher = [] then none
      else (gcm.decipher key iv cipher tag).map fun plain => String.ofList (Utf8.decode plain) := by
  have hne : ∀ {bytes : Bytes} {n : Nat}, bytes.length = n + 1 → bytes ≠ [] := fun h he => by rw [he] at h; cases h
  have hfirst : part [VERSION, base64Url iv, base64Url tag, base64Url cipher] 1 = some (base64Url iv) :=
    part_eq rfl (base64Url_ne_empty (hne hiv))
  have hsecond : part [VERSION, base64Url iv, base64Url tag, base64Url cipher] 2 = some (base64Url tag) :=
    part_eq rfl (base64Url_ne_empty (hne htag))
  have hthird : part [VERSION, base64Url iv, base64Url tag, base64Url cipher] 3 =
      if cipher = [] then none else some (base64Url cipher) := by
    split
    · next hempty => rw [hempty]; rfl
    · next hcipher => exact part_eq rfl (base64Url_ne_empty hcipher)
  have hfourth : part [VERSION, base64Url iv, base64Url tag, base64Url cipher] 4 = none := rfl
  unfold opened
  simp only [split_stored, hfirst, hsecond, hthird, hfourth]
  split
  · rfl
  · simp [decode_base64Url, hiv, htag, hkey, Except.toOption, Option.map_eq_bind]

/-- What `decrypt` reads of a stored text; the ciphertext of the empty text is empty, and so is its part. -/
theorem opened_stored {key : Bytes} (hkey : readKey service environment = .ok key) (hiv : iv.length = IV_BYTES) :
    opened gcm service environment (stored iv (gcm.encipher key iv (Utf8.encode text.toList))) =
      if text = "" then none else some text := by
  have hcipher : (gcm.encipher key iv (Utf8.encode text.toList)).1 = [] ↔ text = "" := by
    rw [← List.length_eq_zero_iff, gcm.length_cipher, List.length_eq_zero_iff, encode_eq_nil]
  have hparts : opened gcm service environment (stored iv (gcm.encipher key iv (Utf8.encode text.toList))) = _ :=
    opened_parts hkey hiv (gcm.length_tag key iv (Utf8.encode text.toList))
  rw [hparts, gcm.decipher_encipher, Option.map_some, Utf8.decode_encode, String.ofList_toList]
  simp only [hcipher]

theorem decrypt_stored {key : Bytes} (hkey : readKey service environment = .ok key) (hiv : iv.length = IV_BYTES) :
    decrypt gcm service environment (stored iv (gcm.encipher key iv (Utf8.encode text.toList))) =
      if text = "" then .error (.internal service.notDecrypted) else .ok text := by
  rw [decrypt, opened_stored hkey hiv]
  by_cases htext : text = ""
  · rw [if_pos htext, if_pos htext]
  · rw [if_neg htext, if_neg htext]

/-- **A secret is read back as it was stored, unless it is empty.** With a key in the environment every text is encrypted;
it is decrypted if it is not empty, and the stored form of the empty text is refused. Without one nothing is encrypted
and nothing is decrypted. -/
theorem secrets_round_trip (gcm : Gcm) (service : Service) (environment : String → Option String) (iv : Bytes)
    (hiv : iv.length = IV_BYTES) (text : String) :
    (isConfigured service environment = true →
      ∃ value, encrypt gcm service environment iv text = .ok value ∧
        decrypt gcm service environment value = if text = "" then .error (.internal service.notDecrypted) else .ok text) ∧
    (isConfigured service environment = false →
      (∃ failure, encrypt gcm service environment iv text = .error failure) ∧
        ∀ value, decrypt gcm service environment value = .error (.internal service.notDecrypted)) := by
  constructor
  · intro hconfigured
    obtain ⟨key, hkey⟩ := isConfigured_iff.mp hconfigured
    exact ⟨stored iv (gcm.encipher key iv (Utf8.encode text.toList)), by rw [encrypt, hkey]; rfl, decrypt_stored hkey hiv⟩
  · intro hmissing
    cases hkey : readKey service environment with
    | ok key => exact absurd (isConfigured_iff.mpr ⟨key, hkey⟩) (by rw [hmissing]; exact Bool.false_ne_true)
    | error failure =>
      refine ⟨⟨failure, by rw [encrypt, hkey]; rfl⟩, fun value => ?_⟩
      have hnone : opened gcm service environment value = none := by
        unfold opened
        simp [hkey, Except.toOption]
      rw [decrypt, hnone]

namespace Demo

def zeros (n : Nat) : Bytes := List.replicate n 0

def zeroCipher : Bytes :=
  [0xce, 0xa7, 0x40, 0x3d, 0x4d, 0x60, 0x6b, 0x6e, 0x07, 0x4e, 0xc5, 0xd3, 0xba, 0xf3, 0x9d, 0x18]

def zeroTag : Bytes :=
  [0xd0, 0xd1, 0xc8, 0xa7, 0x99, 0x99, 0x6b, 0xf0, 0x26, 0x5b, 0x98, 0xb5, 0xd4, 0x8a, 0xb9, 0x19]

/-- AES-256-GCM at the key, the IV and the block of zeros, and a code of its own elsewhere. -/
def zeroGcm : Gcm where
  encipher key iv plain :=
    if key = zeros 32 ∧ iv = zeros 12 ∧ plain = zeros 16 then (zeroCipher, zeroTag) else (plain, zeros 16)
  decipher key iv cipher tag :=
    if key = zeros 32 ∧ iv = zeros 12 ∧ tag = zeroTag then if cipher = zeroCipher then some (zeros 16) else none
    else if tag = zeros 16 then some cipher else none
  length_cipher key iv plain := by
    split
    · next h => rw [h.2.2]; rfl
    · rfl
  length_tag key iv plain := by split <;> rfl
  decipher_encipher key iv plain := by
    by_cases h : key = zeros 32 ∧ iv = zeros 12 ∧ plain = zeros 16
    · simp [h]
    · have hne : zeros 16 ≠ zeroTag := by decide
      simp only [if_neg h]
      rw [if_neg fun hzero => hne hzero.2.2, if_pos trivial]

def zeroKey : String → Option String
  | "SSO_ENCRYPTION_KEY" => some "AAAAAAAAAAAAAAAAAAAAAAAAAAAAAAAAAAAAAAAAAAA="
  | _ => none

def zeroText : String := String.ofList (List.replicate 16 (Char.ofNat 0))

end Demo

/-- Sixteen zeros under the key of zeros. -/
theorem secrets_round_trip_zeros :
    ∃ value, encrypt Demo.zeroGcm oidcSecrets Demo.zeroKey (Demo.zeros 12) Demo.zeroText = .ok value ∧
      decrypt Demo.zeroGcm oidcSecrets Demo.zeroKey value = .ok Demo.zeroText := by
  have hconfigured : isConfigured oidcSecrets Demo.zeroKey = true := by decide +kernel
  have h := (secrets_round_trip Demo.zeroGcm oidcSecrets Demo.zeroKey (Demo.zeros 12) rfl Demo.zeroText).1 hconfigured
  rwa [if_neg (by decide)] at h

end AdWiki.Secrets
