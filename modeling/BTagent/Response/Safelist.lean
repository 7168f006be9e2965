import BTagent.Data.CharTable
import BTagent.Data.IpAddress
import BTagent.Lib.Regex

namespace BTagent

namespace Safelist

def BASELINE_IPS : List String :=
  ["8.8.8.8", "8.8.4.4", "1.1.1.1", "1.0.0.1", "9.9.9.9", "208.67.222.222", "208.67.220.220"]

def BASELINE_DOMAIN_SUFFIXES : List String :=
  ["microsoft.com", "windowsupdate.com", "office.com", "office365.com", "google.com",
    "googleapis.com", "apple.com", "amazonaws.com", "cloudflare.com", "akamai.net", "icloud.com"]

variable (T : CharTable)

def rstrip (c : Char) (s : String) : String := String.ofList (s.toList.rdropWhile (· == c))

def EndsWith (s suffix : String) : Prop := suffix.toList <:+ s.toList

instance (s suffix : String) : Decidable (EndsWith s suffix) :=
  inferInstanceAs (Decidable (_ <:+ _))

def isStructurallyReservedIp (value : String) : Bool :=
  match IpAddress.parse (T.strip value).toList with
  | some ip => ip.isPrivate || ip.isLoopback || ip.isReserved || ip.isLinkLocal || ip.isMulticast
  | none => false

-- `https?://`, in any case
def scheme : Regex :=
  .seq (.sets ("http".toList.map T.sameLetter)) (.seq (.opt (.set (T.sameLetter 's')))
    (.sets ("://".toList.map fun c => (· == c))))

def splitScheme (cs : List Char) : List Char × List Char :=
  ((Regex.splits T.isWord (scheme T) none cs).head?).getD ([], cs)

def hostPart (cs : List Char) : List Char :=
  ((cs.takeWhile (· != '/')).takeWhile (· != '?')).takeWhile (· != '#')

def domainFromUrl (value : String) : String :=
  String.ofList (hostPart (splitScheme T (T.strip value).toList).2)

def isAccountRootPrincipal (value : String) : Bool :=
  let v := rstrip '/' (T.lower (T.strip value))
  EndsWith v ":root" || EndsWith v "/root"

end Safelist

structure SafelistPolicy where
  ips : List String
  domainSuffixes : List String
  principals : List String

namespace SafelistPolicy
open Safelist

variable (T : CharTable)

def present (entries : List String) : List String := entries.filter fun v => T.strip v ≠ ""

def normalizeSuffix (s : String) : String := rstrip '.' (T.lower (T.strip s))

-- `__post_init__`
def postInit (policy : SafelistPolicy) : SafelistPolicy where
  ips := (present T policy.ips).map T.strip
  domainSuffixes := (present T policy.domainSuffixes).map (normalizeSuffix T)
  principals := (present T policy.principals).map fun p => T.lower (T.strip p)

-- `replace` builds the new policy, so it is normalized once more.
def merge (policy : SafelistPolicy) (extraIps extraDomainSuffixes extraPrincipals : List String) :
    SafelistPolicy :=
  postInit T {
    ips := policy.ips ++ (present T extraIps).map T.strip
    domainSuffixes :=
      policy.domainSuffixes ++ (present T extraDomainSuffixes).map (normalizeSuffix T)
    principals := policy.principals ++ (present T extraPrincipals).map fun p => T.lower (T.strip p) }

def BASELINE_SAFELIST : SafelistPolicy := postInit T ⟨BASELINE_IPS, BASELINE_DOMAIN_SUFFIXES, []⟩

variable (policy : SafelistPolicy) (value : String)

def ipSafelisted : Bool :=
  let v := T.strip value
  isStructurallyReservedIp T v || policy.ips.contains v

def domainSafelisted : Bool :=
  let host := rstrip '.' (T.lower (T.strip value))
  host ≠ "" && policy.domainSuffixes.any fun s => host = s || EndsWith host ("." ++ s)

def urlSafelisted : Bool := policy.domainSafelisted T (domainFromUrl T value)

def principalSafelisted : Bool :=
  let v := T.lower (T.strip value)
  v ≠ "" && (isAccountRootPrincipal T v || policy.principals.contains v)

@[simp] theorem ipSafelisted_strip :
    policy.ipSafelisted T (T.strip value) = policy.ipSafelisted T value := by
  simp only [ipSafelisted, T.strip_strip]

@[simp] theorem domainSafelisted_strip :
    policy.domainSafelisted T (T.strip value) = policy.domainSafelisted T value := by
  simp only [domainSafelisted, T.strip_strip]

@[simp] theorem urlSafelisted_strip :
    policy.urlSafelisted T (T.strip value) = policy.urlSafelisted T value := by
  simp only [urlSafelisted, domainFromUrl, T.strip_strip]

end SafelistPolicy

end BTagent
