import AdWiki.Common.JsString
import AdWiki.Lib.Fallible
import AdWiki.Lib.IpAddress

/-!
# The guard of provider URLs

`assertSafeOidcUrl` refuses a URL whose host, or one of the addresses it resolves to, is internal. An address is judged
by the beginning of its text (`isPrivateAddress`), but one address has many texts. `internal` says which addresses are
internal, whatever their text; the guard meets that (`SeesThrough`) except for the texts that `missed` describes.

* `isPrivateAddress_of_local`: unique-local, link-local and multicast addresses are recognised in every text.
* `missed_iff`: the texts that are missed are those of internal addresses that are not recognised.

Hosts and addresses are ASCII text, and so is what they are compared with.
-/

namespace AdWiki.Sso.UrlSecurity

open Fallible IpAddress

/-- The variables of the environment. -/
structure Env where
  nodeEnv : Option String
  oidcAllowInsecureHttp : Option String
  oidcAllowedPrivateHosts : Option String

/-- The parts of a parsed URL. -/
structure Url where
  protocol : String
  username : String
  password : String
  hash : String
  hostname : String
  deriving DecidableEq, Repr

structure ServiceUnavailable where
  message : String
  deriving DecidableEq, Repr

def unsafeUrl (label : String) : ServiceUnavailable :=
  ⟨label ++ " verweist auf ein nicht freigegebenes internes Netzwerkziel."⟩

def lowerCase (s : List Char) : List Char := s.map Char.toLower

/-- `value.toLowerCase().replace(/\.$/, "")` -/
def hostText (value : String) : String :=
  let text := lowerCase value.toList
  String.ofList (if text.getLast? = some '.' then text.dropLast else text)

/-! ## Addresses -/

def isPrivateIPv4 (first second : Nat) : Bool :=
  first == 0 || first == 10 || first == 127 || first == 169 && second == 254 ||
    first == 172 && 16 ≤ second && second ≤ 31 || first == 192 && second == 168 ||
    first == 100 && 64 ≤ second && second ≤ 127 || 224 ≤ first

/-- `/^fe[89ab]/` -/
def linkLocalText : List Char → Bool
  | c :: d :: e :: _ => c == 'f' && d == 'e' && ['8', '9', 'a', 'b'].contains e
  | _ => false

def isPrivateIPv6 (normalized : List Char) : Bool :=
  normalized == "::".toList || normalized == "::1".toList || "fc".toList.isPrefixOf normalized ||
    "fd".toList.isPrefixOf normalized || linkLocalText normalized || "ff".toList.isPrefixOf normalized ||
    "::ffff:127.".toList.isPrefixOf normalized || "::ffff:10.".toList.isPrefixOf normalized ||
    "::ffff:192.168.".toList.isPrefixOf normalized

/-- The version of the protocol, `isIP(value)`, is the one that the text reads as. -/
def isPrivateAddress (value : String) : Bool :=
  match read value.toList with
  | some (.v4 a) => isPrivateIPv4 a.a a.b
  | some (.v6 _) => isPrivateIPv6 (lowerCase value.toList)
  | none => false

/-! ## URLs -/

section Guard

variable (env : Env)

def allowedPrivateHosts : List String :=
  ((Js.split ',' (env.oidcAllowedPrivateHosts.getD "")).map fun host => hostText (Js.trim host)).filter (· ≠ "")

def allowDevelopmentHttp : Bool := env.nodeEnv != some "production" && env.oidcAllowInsecureHttp == some "true"

def allowTestLoopback (hostname : String) : Bool :=
  env.nodeEnv == some "test" && env.oidcAllowInsecureHttp == some "true" &&
    (hostname == "localhost" || hostname == "127.0.0.1" || hostname == "::1" || hostname == "[::1]")

/-- The parts of a URL for which `parseOidcUrl` refuses it. -/
def unsafeParts (url : Url) : Bool :=
  url.username != "" || url.password != "" || url.hash != "" ||
    url.protocol != "https:" && !(allowDevelopmentHttp env && url.protocol == "http:")

def parseOidcUrl (url : Url) (label : String) : Except ServiceUnavailable Url := do
  throwIf (unsafeParts env url) (unsafeUrl label)
  pure url

/-- Is the host internal by its name? -/
def internalName (hostname : String) : Bool :=
  hostname == "localhost" || ".localhost".toList.isSuffixOf hostname.toList || isPrivateAddress hostname

/-- The host is allowed to be internal. -/
def exempt (hostname : String) : Bool := allowTestLoopback env hostname || (allowedPrivateHosts env).contains hostname

/-- `lookup` are the addresses of a host, or `none` where it cannot be resolved. -/
def assertSafeOidcUrl (lookup : String → Option (List String)) (value : Url) (label : String) :
    Except ServiceUnavailable Url := do
  let url ← parseOidcUrl env value label
  let hostname := hostText url.hostname
  if exempt env hostname then pure url
  else do
    throwIf (internalName hostname) (unsafeUrl label)
    let addresses ← ofOption (lookup hostname) ⟨label ++ " konnte nicht sicher aufgelöst werden."⟩
    throwIf (addresses.length = 0 ∨ addresses.any isPrivateAddress) (unsafeUrl label)
    pure url

end Guard

variable {env : Env} {lookup : String → Option (List String)} {url : Url} {label value : String} {h : IPv6}

theorem assertSafeOidcUrl_ok : (∃ u, assertSafeOidcUrl env lookup url label = .ok u) ↔ unsafeParts env url = false ∧
    (exempt env (hostText url.hostname) = true ∨ internalName (hostText url.hostname) = false ∧
      ∃ addresses, lookup (hostText url.hostname) = some addresses ∧ addresses ≠ [] ∧
        ∀ address ∈ addresses, isPrivateAddress address = false) := by
  unfold assertSafeOidcUrl parseOidcUrl
  constructor
  · rintro ⟨u, hu⟩
    obtain ⟨parsed, hparsed, hu⟩ := bind_eq_ok.mp hu
    obtain ⟨hparts, hparsed⟩ := throwIf_bind_eq_ok.mp hparsed
    cases pure_eq_ok.mp hparsed
    refine ⟨Bool.eq_false_iff.mpr hparts, ?_⟩
    by_cases hexempt : exempt env (hostText url.hostname) = true
    · exact Or.inl hexempt
    · rw [if_neg hexempt] at hu
      obtain ⟨hname, hu⟩ := throwIf_bind_eq_ok.mp hu
      obtain ⟨addresses, hlookup, hu⟩ := bind_eq_ok.mp hu
      obtain ⟨haddresses, -⟩ := throwIf_bind_eq_ok.mp hu
      obtain ⟨hlength, hany⟩ := not_or.mp haddresses
      refine Or.inr ⟨Bool.eq_false_iff.mpr hname, addresses, ofOption_eq_ok.mp hlookup, ?_, ?_⟩
      · rintro rfl
        exact hlength rfl
      · simpa using hany
  · rintro ⟨hparts, hrest⟩
    refine ⟨url, bind_eq_ok.mpr ⟨url, throwIf_bind_eq_ok.mpr ⟨by simp [hparts], rfl⟩, ?_⟩⟩
    rcases hrest with hexempt | ⟨hname, addresses, hlookup, hne, hall⟩
    · exact if_pos hexempt
    · by_cases hexempt : exempt env (hostText url.hostname) = true
      · exact if_pos hexempt
      · refine (if_neg hexempt).trans (throwIf_bind_eq_ok.mpr ⟨by simp [hname], ?_⟩)
        refine bind_eq_ok.mpr ⟨addresses, ofOption_eq_ok.mpr hlookup, throwIf_bind_eq_ok.mpr ⟨?_, rfl⟩⟩
        simpa [hne] using hall

/-! ## What an address is -/

/-- The mapped addresses of the ranges of IPv4, the unspecified and the loopback address. -/
def special (h : IPv6) : Bool :=
  (h.mapped.any fun a => isPrivateIPv4 a.a a.b) || h == IPv6.unspecified || h == IPv6.loopback

/-- Internal addresses: the ranges of IPv4, mapped or not, and the loopback, unspecified, unique-local, link-local and
multicast addresses of IPv6. -/
def internal : Address → Bool
  | .v4 a => isPrivateIPv4 a.a a.b
  | .v6 h => special h ||
      decide (0xfc00 ≤ h.first ∧ h.first ≤ 0xfdff) || decide (0xfe80 ≤ h.first ∧ h.first ≤ 0xfebf) ||
        decide (0xff00 ≤ h.first)

def isInternal (address : String) : Bool := (read address.toList).any internal

/-- The texts of internal addresses that are missed: a mapped, loopback or unspecified address that is not spelled in one
of five ways. -/
def missed (address : String) : Bool :=
  match read address.toList with
  | some (.v6 h) =>
    special h &&
      !(["::", "::1"].any fun text => text.toList == lowerCase address.toList) &&
      !(["::ffff:127.", "::ffff:10.", "::ffff:192.168."].any fun text =>
        text.toList.isPrefixOf (lowerCase address.toList))
  | _ => false

/-- An address of the unique-local, link-local or multicast range is recognised in every text. -/
theorem isPrivateAddress_of_local (hread : read value.toList = some (.v6 h)) (hv6 : readIPv6 value.toList = some h)
    (hlocal : 0xfc00 ≤ h.first ∧ h.first ≤ 0xfdff ∨ 0xfe80 ≤ h.first ∧ h.first ≤ 0xfebf ∨ 0xff00 ≤ h.first) :
    isPrivateAddress value = true := by
  have hhigh : 0xfc00 ≤ h.first := by omega
  obtain ⟨d₂, d₃, d₄, t, h₂, h₃, h₄, hfirst, htext⟩ := IPv6.first_high hv6 hhigh
  unfold isPrivateAddress
  rw [hread]
  show isPrivateIPv6 (value.toList.map Char.toLower) = true
  rw [htext]
  have hcases : d₂ = 12 ∨ d₂ = 13 ∨ d₂ = 15 ∨ d₂ = 14 ∧ (d₃ = 8 ∨ d₃ = 9 ∨ d₃ = 10 ∨ d₃ = 11) := by omega
  rcases hcases with rfl | rfl | rfl | ⟨rfl, rfl | rfl | rfl | rfl⟩ <;>
    simp [isPrivateIPv6, linkLocalText, Nat.digitChar, List.isPrefixOf]

theorem first_of_mapped {a : IPv4} (hmapped : h.mapped = some a) : h.first = 0 := by
  unfold IPv6.mapped at hmapped
  split at hmapped
  · next heq =>
    rw [IPv6.first, heq]
    rfl
  · cases hmapped

theorem first_of_special (hspecial : special h = true) : h.first = 0 := by
  simp only [special, Bool.or_eq_true, beq_iff_eq] at hspecial
  rcases hspecial with (hmapped | rfl) | rfl
  · obtain ⟨a, ha, -⟩ := (Option.any_eq_true _ _).mp hmapped
    exact first_of_mapped ha
  · rfl
  · rfl

/-- A mapped, loopback or unspecified address is recognised in five spellings only. -/
theorem isPrivateIPv6_of_zero (hv6 : readIPv6 value.toList = some h) (hfirst : h.first = 0) :
    isPrivateIPv6 (lowerCase value.toList) = true ↔
      (["::", "::1"].any fun text => text.toList == lowerCase value.toList) = true ∨
      (["::ffff:127.", "::ffff:10.", "::ffff:192.168."].any fun text =>
        text.toList.isPrefixOf (lowerCase value.toList)) = true := by
  obtain ⟨c, t, htext, hc⟩ := IPv6.first_zero hv6 hfirst
  have hlower : lowerCase value.toList = c :: t := htext
  have hf : c ≠ 'f' := by rcases hc with rfl | rfl <;> decide
  rw [hlower]
  have hlink : linkLocalText (c :: t) = false := by
    unfold linkLocalText
    split
    · next heq =>
      cases heq
      simp [hf]
    · rfl
  have hno : ∀ x, ['f', x].isPrefixOf (c :: t) = false := by
    intro x
    simp [List.isPrefixOf, hf.symm]
  simp only [isPrivateIPv6, show "fc".toList = ['f', 'c'] from rfl, show "fd".toList = ['f', 'd'] from rfl,
    show "ff".toList = ['f', 'f'] from rfl, hno, hlink, Bool.or_false, Bool.or_eq_true, List.any_cons,
      List.any_nil, beq_iff_eq,
    eq_comm (a := c :: t), or_assoc]

theorem missed_iff : missed value = true ↔ isInternal value = true ∧ isPrivateAddress value = false := by
  cases hread : read value.toList with
  | none => simp [missed, isInternal, hread]
  | some address =>
    cases address with
    | v4 a => simp [missed, isInternal, isPrivateAddress, internal, hread]
    | v6 h =>
      have hv6 : readIPv6 value.toList = some h := by
        rcases Option.or_eq_some_iff.mp hread with hv4 | ⟨-, hv6⟩
        · obtain ⟨a, -, heq⟩ := Option.map_eq_some_iff.mp hv4
          cases heq
        · obtain ⟨h', hv6, heq⟩ := Option.map_eq_some_iff.mp hv6
          cases heq
          exact hv6
      have hprivate : isPrivateAddress value = isPrivateIPv6 (lowerCase value.toList) := by
        rw [isPrivateAddress, hread]
      rw [isInternal, hread, Option.any_some]
      unfold missed
      rw [hread]
      cases hspecial : special h with
      | true =>
        have hinternal : internal (.v6 h) = true := by simp [internal, hspecial]
        have hspelled := isPrivateIPv6_of_zero hv6 (first_of_special hspecial)
        rw [← hprivate] at hspelled
        rw [hinternal, ← Bool.not_eq_true, hspelled]
        simp only [hspecial, Bool.and_eq_true, Bool.not_eq_true', true_and, not_or, Bool.not_eq_true]
      | false =>
        simp only [hspecial, Bool.false_and, Bool.false_eq_true, false_iff, not_and, Bool.not_eq_false]
        intro hinternal
        refine isPrivateAddress_of_local hread hv6 ?_
        simpa [internal, hspecial, or_assoc] using hinternal

/-! ## The guard -/

/-- If the guard accepts a URL whose host is not exempt, none of the addresses of the host is internal. -/
def SeesThrough (env : Env) (lookup : String → Option (List String)) (url : Url) (label : String) : Prop :=
  ∀ addresses, lookup (hostText url.hostname) = some addresses → addresses ≠ [] →
    (∃ u, assertSafeOidcUrl env lookup url label = .ok u) → exempt env (hostText url.hostname) = false →
    ∀ address ∈ addresses, isInternal address = false

/-- The guard refuses a URL for its parts, for the name of its host or for one of the addresses, or makes an exception. -/
def decided (env : Env) (url : Url) (addresses : List String) : Bool :=
  unsafeParts env url || exempt env (hostText url.hostname) || internalName (hostText url.hostname) ||
    addresses.any isPrivateAddress

/-- The guard sees through every text of an address but those that are missed, which pass unless something else of the
URL is refused. -/
theorem seesThrough_iff : SeesThrough env lookup url label ↔
    ∀ addresses, lookup (hostText url.hostname) = some addresses →
      decided env url addresses = true ∨ ∀ address ∈ addresses, missed address = false := by
  constructor
  · intro hsees addresses hlookup
    by_cases hdecided : decided env url addresses = true
    · exact Or.inl hdecided
    · right
      simp only [decided, Bool.or_eq_true, not_or, Bool.not_eq_true] at hdecided
      obtain ⟨⟨⟨hparts, hexempt⟩, hname⟩, hany⟩ := hdecided
      intro address haddress
      have hne : addresses ≠ [] := List.ne_nil_of_mem haddress
      have hall : ∀ address ∈ addresses, isPrivateAddress address = false := by simpa using hany
      have hok : ∃ u, assertSafeOidcUrl env lookup url label = .ok u :=
        assertSafeOidcUrl_ok.mpr ⟨hparts, Or.inr ⟨hname, addresses, hlookup, hne, hall⟩⟩
      rw [Bool.eq_false_iff]
      intro hmissed
      obtain ⟨hinternal, -⟩ := missed_iff.mp hmissed
      rw [hsees addresses hlookup hne hok hexempt address haddress] at hinternal
      cases hinternal
  · intro hcond addresses hlookup hne hok hexempt address haddress
    obtain ⟨hparts, hrest⟩ := assertSafeOidcUrl_ok.mp hok
    rcases hrest with hexempt' | ⟨hname, addresses', hlookup', -, hall⟩
    · rw [hexempt] at hexempt'
      cases hexempt'
    · obtain rfl : addresses = addresses' := Option.some.inj (hlookup.symm.trans hlookup')
      have hany : addresses.any isPrivateAddress = false := by simpa using hall
      rcases hcond addresses hlookup with hdecided | hmissed
      · rw [decided, hparts, hexempt, hname, hany] at hdecided
        cases hdecided
      · rw [Bool.eq_false_iff]
        intro hinternal
        have := missed_iff.mpr ⟨hinternal, hall address haddress⟩
        rw [hmissed address haddress] at this
        cases this

namespace Demo

def production : Env := ⟨some "production", none, none⟩

def login : Url := ⟨"https:", "", "", "", "login.example.com"⟩

/-- The metadata service of a cloud, as a mapped address. -/
def metadata : String := "::ffff:169.254.169.254"

def resolver (_ : String) : Option (List String) := some [metadata]

end Demo

theorem metadata_not_seen : ¬SeesThrough Demo.production Demo.resolver Demo.login "Issuer" := by
  intro hsees
  have hinternal : isInternal Demo.metadata = true := by decide +kernel
  have hexempt : exempt Demo.production (hostText Demo.login.hostname) = false := by decide +kernel
  have hok : ∃ u, assertSafeOidcUrl Demo.production Demo.resolver Demo.login "Issuer" = .ok u := by
    refine assertSafeOidcUrl_ok.mpr ⟨by decide +kernel, Or.inr ⟨by decide +kernel, [Demo.metadata], rfl, by simp, ?_⟩⟩
    intro address haddress
    rw [List.mem_singleton.mp haddress]
    decide +kernel
  rw [hsees [Demo.metadata] rfl (by simp) hok hexempt Demo.metadata List.mem_cons_self] at hinternal
  cases hinternal

end AdWiki.Sso.UrlSecurity
